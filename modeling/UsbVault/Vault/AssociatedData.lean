import UsbVault.Vault.Header

/-!
# The associated data of a V6 vault

What a ciphertext or a key of a V6 vault is bound to: the wrapped key, the
verify marker and the index each to their associated data, the
key-encryption key to the transcript of its derivation. Each string
determines what it was built from, and strings of different kinds differ
(`bytes_injective`), so an AEAD that binds its associated data refuses a
ciphertext in any other place.

The index and the transcript take a salt of any length. There is one way for
two such strings to be the same, with a transcript whose salt is as long as
the four bytes `Vaul` say.
-/

namespace UsbVault.VaultHeader

open Wire

def INDEX_AD_DOMAIN_V6 : Bytes := ascii "USBVault-index-v6:"

/-- `index_ad_v6` -/
def indexAdV6 (version : UInt8) (salt : Bytes) (activeSlot : UInt8) : Bytes :=
  INDEX_AD_DOMAIN_V6 ++ [version] ++ salt ++ [activeSlot]

/-- What is bound: the purpose, with the parameters of its string. -/
inductive Context where
  | wrap (version : UInt8) (salt : ByteVec 32) (argon2Memory argon2Time : UInt32)
      (argon2Parallelism : UInt8)
  | verify (version : UInt8) (salt : ByteVec 32)
  | index (version : UInt8) (salt : Bytes) (activeSlot : UInt8)
  | transcript (version kdfHashId cipherId : UInt8) (salt : Bytes)
      (argon2Memory argon2Time : UInt32) (argon2Parallelism : UInt8)
  deriving DecidableEq

namespace Context

/-- The string of a context. -/
def bytes : Context → Bytes
  | wrap version salt argon2Memory argon2Time argon2Parallelism =>
    wrapAd version salt argon2Memory argon2Time argon2Parallelism
  | verify version salt => verifyAd version salt
  | index version salt activeSlot => indexAdV6 version salt activeSlot
  | transcript version kdfHashId cipherId salt argon2Memory argon2Time argon2Parallelism =>
    buildKdfTranscript version kdfHashId cipherId salt argon2Memory argon2Time argon2Parallelism

/-- The salt is one of a header. -/
def HeaderSalt : Context → Prop
  | wrap _ _ _ _ _ => True
  | verify _ _ => True
  | index _ salt _ => salt.length = 32
  | transcript _ _ _ salt _ _ _ => salt.length = 32

/-! ## Each string determines its parameters -/

variable {v v' k k' i i' p p' s s' : UInt8} {m m' t t' : UInt32} {salt salt' : ByteVec 32}
  {salts salts' : Bytes}

theorem append_singleton_inj {a b : Bytes} {x y : UInt8} (h : a ++ [x] = b ++ [y]) :
    a = b ∧ x = y := by
  obtain ⟨hab, hxy⟩ := List.append_inj' h rfl
  exact ⟨hab, List.head_eq_of_cons_eq hxy⟩

theorem wrapAd_length : (wrapAd v salt m t p).length = 62 := by
  have hdomain : WRAP_AD_DOMAIN_V6.length = 20 := by decide
  simp [wrapAd, hdomain]

theorem verifyAd_length : (verifyAd v salt).length = 52 := by
  have hdomain : VERIFY_AD_DOMAIN_V6.length = 19 := by decide
  simp [verifyAd, hdomain]

theorem wrapAd_inj (h : wrapAd v salt m t p = wrapAd v' salt' m' t' p') :
    v = v' ∧ salt = salt' ∧ m = m' ∧ t = t' ∧ p = p' := by
  simp only [wrapAd, List.append_assoc] at h
  obtain ⟨hversion, h⟩ := append_inj_of_length (by rfl) (List.append_cancel_left h)
  obtain ⟨hsalt, h⟩ := vec_append_inj h
  obtain ⟨hmemory, h⟩ := u32le_append_inj h
  obtain ⟨htime, h⟩ := u32le_append_inj h
  exact ⟨List.head_eq_of_cons_eq hversion, hsalt, hmemory, htime, List.head_eq_of_cons_eq h⟩

theorem verifyAd_inj (h : verifyAd v salt = verifyAd v' salt') : v = v' ∧ salt = salt' := by
  simp only [verifyAd, List.append_assoc] at h
  obtain ⟨hversion, h⟩ := append_inj_of_length (by rfl) (List.append_cancel_left h)
  exact ⟨List.head_eq_of_cons_eq hversion, List.Vector.toList_injective h⟩

theorem indexAdV6_inj (h : indexAdV6 v salts s = indexAdV6 v' salts' s') :
    v = v' ∧ salts = salts' ∧ s = s' := by
  obtain ⟨h, hslot⟩ := append_singleton_inj h
  rw [List.append_assoc, List.append_assoc] at h
  obtain ⟨hversion, hsalt⟩ := append_inj_of_length (by rfl) (List.append_cancel_left h)
  exact ⟨List.head_eq_of_cons_eq hversion, hsalt, hslot⟩

theorem buildKdfTranscript_length :
    (buildKdfTranscript v k i salts m t p).length = salts.length + 16 := by
  simp only [buildKdfTranscript, List.length_append, List.length_cons, List.length_nil,
    u32le_length]
  omega

theorem buildKdfTranscript_inj
    (h : buildKdfTranscript v k i salts m t p = buildKdfTranscript v' k' i' salts' m' t' p') :
    v = v' ∧ k = k' ∧ i = i' ∧ salts = salts' ∧ m = m' ∧ t = t' ∧ p = p' := by
  -- the whole length determines that of the salt
  have hlength := congrArg List.length h
  rw [buildKdfTranscript_length, buildKdfTranscript_length] at hlength
  simp only [buildKdfTranscript, List.append_assoc] at h
  obtain ⟨hids, h⟩ := append_inj_of_length (by rfl) h
  obtain ⟨-, h⟩ := u32le_append_inj h
  obtain ⟨hsalt, h⟩ := append_inj_of_length (by omega) h
  obtain ⟨hmemory, h⟩ := u32le_append_inj h
  obtain ⟨htime, h⟩ := u32le_append_inj h
  simp only [List.cons.injEq, and_true] at hids h
  exact ⟨hids.1, hids.2.1, hids.2.2, hsalt, hmemory, htime, h⟩

/-! ## Strings of different kinds -/

/-! The three domains differ at their tenth byte. -/

theorem wrapAd_tag : (wrapAd v salt m t p)[9]? = some 0x77 := by
  simp only [wrapAd, List.append_assoc]
  rw [List.getElem?_append_left (by decide)]
  decide

theorem verifyAd_tag : (verifyAd v salt)[9]? = some 0x76 := by
  simp only [verifyAd, List.append_assoc]
  rw [List.getElem?_append_left (by decide)]
  decide

theorem indexAdV6_tag : (indexAdV6 v salts s)[9]? = some 0x69 := by
  simp only [indexAdV6, List.append_assoc]
  rw [List.getElem?_append_left (by decide)]
  decide

/-- A transcript that starts as the domains do: its salt is as long as four
of their bytes say. -/
theorem buildKdfTranscript_domain {rest : Bytes}
    (h : buildKdfTranscript v k i salts m t p = ascii "USB" ++ (ascii "Vaul" ++ rest)) :
    u32le (UInt32.ofNat salts.length) = ascii "Vaul" := by
  simp only [buildKdfTranscript, List.append_assoc] at h
  have husb : (ascii "USB").length = 3 := by decide
  have hids : [v, k, i].length = (ascii "USB").length := husb.symm
  obtain ⟨-, h⟩ := append_inj_of_length hids h
  exact (append_inj_of_length (by rw [u32le_length]; decide) h).1

theorem wrapAd_ne_transcript :
    wrapAd v salt m t p ≠ buildKdfTranscript v' k i salts m' t' p' := by
  intro h
  have hlength := congrArg List.length h
  rw [buildKdfTranscript_length, wrapAd_length] at hlength
  have hdomain : WRAP_AD_DOMAIN_V6 = ascii "USB" ++ (ascii "Vaul" ++ ascii "t-wrapMEK-v6:") := by
    decide
  rw [wrapAd, hdomain] at h
  simp only [List.append_assoc] at h
  have hsalt := buildKdfTranscript_domain h.symm
  rw [show salts.length = 46 by omega] at hsalt
  exact absurd hsalt (by decide)

theorem verifyAd_ne_transcript :
    verifyAd v salt ≠ buildKdfTranscript v' k i salts m t p := by
  intro h
  have hlength := congrArg List.length h
  rw [buildKdfTranscript_length, verifyAd_length] at hlength
  have hdomain : VERIFY_AD_DOMAIN_V6 = ascii "USB" ++ (ascii "Vaul" ++ ascii "t-verify-v6:") := by
    decide
  rw [verifyAd, hdomain] at h
  simp only [List.append_assoc] at h
  have hsalt := buildKdfTranscript_domain h.symm
  rw [show salts.length = 36 by omega] at hsalt
  exact absurd hsalt (by decide)

/-- An index and a transcript are only the same with a salt of that length. -/
theorem transcript_salt_of_indexAdV6 {salts : Bytes}
    (h : indexAdV6 v' salts' s = buildKdfTranscript v k i salts m t p) :
    u32le (UInt32.ofNat salts.length) = ascii "Vaul" := by
  have hdomain : INDEX_AD_DOMAIN_V6 = ascii "USB" ++ (ascii "Vaul" ++ ascii "t-index-v6:") := by
    decide
  rw [indexAdV6, hdomain] at h
  simp only [List.append_assoc] at h
  exact buildKdfTranscript_domain h.symm

/-- An index and a transcript whose salt has that length, 1.8 GB at least. -/
def Overlap : Context → Context → Prop
  | index _ _ _, transcript _ _ _ salt _ _ _ => u32le (UInt32.ofNat salt.length) = ascii "Vaul"
  | _, _ => False

theorem eq_or_overlap {c d : Context} (h : c.bytes = d.bytes) :
    c = d ∨ Overlap c d ∨ Overlap d c := by
  have htag : c.bytes[9]? = d.bytes[9]? := by rw [h]
  cases c with
  | wrap v salt m t p =>
    cases d with
    | wrap =>
      obtain ⟨rfl, rfl, rfl, rfl, rfl⟩ := wrapAd_inj h
      exact .inl rfl
    | verify => simp [bytes, wrapAd_tag, verifyAd_tag] at htag
    | index => simp [bytes, wrapAd_tag, indexAdV6_tag] at htag
    | transcript => exact absurd h wrapAd_ne_transcript
  | verify v salt =>
    cases d with
    | wrap => simp [bytes, wrapAd_tag, verifyAd_tag] at htag
    | verify =>
      obtain ⟨rfl, rfl⟩ := verifyAd_inj h
      exact .inl rfl
    | index => simp [bytes, verifyAd_tag, indexAdV6_tag] at htag
    | transcript => exact absurd h verifyAd_ne_transcript
  | index v salt s =>
    cases d with
    | wrap => simp [bytes, wrapAd_tag, indexAdV6_tag] at htag
    | verify => simp [bytes, verifyAd_tag, indexAdV6_tag] at htag
    | index =>
      obtain ⟨rfl, rfl, rfl⟩ := indexAdV6_inj h
      exact .inl rfl
    | transcript => exact .inr (.inl (transcript_salt_of_indexAdV6 h))
  | transcript v k i salt m t p =>
    cases d with
    | wrap => exact absurd h.symm wrapAd_ne_transcript
    | verify => exact absurd h.symm verifyAd_ne_transcript
    | index => exact .inr (.inr (transcript_salt_of_indexAdV6 h.symm))
    | transcript =>
      obtain ⟨rfl, rfl, rfl, rfl, rfl, rfl, rfl⟩ := buildKdfTranscript_inj h
      exact .inl rfl

theorem not_overlap {c d : Context} (h : d.HeaderSalt) : ¬Overlap c d := by
  cases c with
  | wrap => exact id
  | verify => exact id
  | transcript => exact id
  | index =>
    cases d with
    | wrap => exact id
    | verify => exact id
    | index => exact id
    | transcript v k i salt m t p =>
      intro hoverlap
      have hsalt : salt.length = 32 := h
      rw [Overlap, hsalt] at hoverlap
      exact absurd hoverlap (by decide)

theorem bytes_inj {c d : Context} (hc : c.HeaderSalt) (hd : d.HeaderSalt)
    (h : c.bytes = d.bytes) : c = d := by
  rcases eq_or_overlap h with heq | hoverlap | hoverlap
  · exact heq
  · exact absurd hoverlap (not_overlap hd)
  · exact absurd hoverlap (not_overlap hc)

/-! ## What an AEAD makes of them -/

/-- A ciphertext fails under any associated data but its own. -/
def BindsAd {n : Nat} (A : Aead n) : Prop :=
  ∀ {k nonce ad ad' m c}, A.encrypt k nonce ad m = some c → ad' ≠ ad →
    A.decrypt k nonce ad' c = none

/-- **The strings of a V6 vault are separate**: with the salts of headers,
the string of a context determines its purpose and its parameters, so no
ciphertext made in one context authenticates in another. With salts of any
length, only an index and a transcript can be the same, and only when the
salt of the transcript is as long as `Vaul` says. -/
theorem bytes_injective :
    (∀ c d : Context, c.HeaderSalt → d.HeaderSalt → c.bytes = d.bytes → c = d)
      ∧ (∀ c d : Context, c.bytes = d.bytes → c = d ∨ Overlap c d ∨ Overlap d c)
      ∧ ∀ {n : Nat} (A : Aead n), BindsAd A →
        ∀ (c d : Context), c.HeaderSalt → d.HeaderSalt → c ≠ d →
        ∀ key nonce m ciphertext, A.encrypt key nonce c.bytes m = some ciphertext →
          A.decrypt key nonce d.bytes ciphertext = none := by
  refine ⟨fun _ _ => bytes_inj, fun _ _ => eq_or_overlap, ?_⟩
  intro n A hA c d hc hd hne key nonce m ciphertext henc
  exact hA henc fun h => hne (bytes_inj hd hc h).symm

/-- An AEAD that carries its associated data in front of the message. -/
def carryingAead (n : Nat) : Aead n where
  encrypt _ _ ad m :=
    if ad.length < 2 ^ 32 then some (u32le (UInt32.ofNat ad.length) ++ (ad ++ m)) else none
  decrypt _ _ ad c :=
    if ad.length < 2 ^ 32 ∧ (u32le (UInt32.ofNat ad.length) ++ ad).isPrefixOf c then
      some (c.drop (4 + ad.length))
    else none

theorem carryingAead_bindsAd (n : Nat) : BindsAd (carryingAead n) := by
  intro k nonce ad ad' m c henc hne
  simp only [carryingAead] at henc ⊢
  split at henc
  · rename_i hshort
    cases henc
    rw [if_neg]
    rintro ⟨hshort', hpre⟩
    obtain ⟨rest, hrest⟩ := List.isPrefixOf_iff_prefix.mp hpre
    rw [List.append_assoc] at hrest
    exact hne (prefixed_append_inj hshort' hshort hrest).1
  · cases henc

/-- The wrapped key of a header, and its verify marker. -/
theorem bytes_injective_sample :
    ∃ ciphertext, (carryingAead 24).encrypt (zeroVec 32) (zeroVec 24)
        (wrap 6 (zeroVec 32) 65536 3 4).bytes [1, 2, 3] = some ciphertext
      ∧ (carryingAead 24).decrypt (zeroVec 32) (zeroVec 24)
        (verify 6 (zeroVec 32)).bytes ciphertext = none := by
  obtain ⟨-, -, hrefuses⟩ := bytes_injective
  obtain ⟨ciphertext, henc⟩ := Option.isSome_iff_exists.mp
    (show ((carryingAead 24).encrypt (zeroVec 32) (zeroVec 24)
      (wrap 6 (zeroVec 32) 65536 3 4).bytes [1, 2, 3]).isSome = true by decide)
  exact ⟨ciphertext, henc, hrefuses (carryingAead 24) (carryingAead_bindsAd 24)
    (wrap 6 (zeroVec 32) 65536 3 4) (verify 6 (zeroVec 32)) trivial trivial (by rintro ⟨⟩) _ _ _ _
    henc⟩

end Context

end UsbVault.VaultHeader
