import UsbVault.Storage.ReplicaMoves

/-!
# The parts that are sent to S3

A replica never refreshes what it has cached, so that its copy of an upload
misses the parts recorded by others, and keeps those whose INSERT has failed.
`FinalizeUpload` on a replica sends the parts that are recorded in the runs in
which no INSERT leaves the copy of this replica behind
(`finalize_sends_recorded`).

The invariant (`Coherent`) compares every copy that the replica may yet send
with the rows of the upload, number by number: a copy holds what is recorded,
or a part whose INSERT is still to come.
-/

namespace UsbVault.Storage.Multipart.Replicas

open Members

variable {s : State} {k : Nat} {X : UploadID} {r : ReplicaID} {parts : List CompletedPart}
variable {part : CompletedPart}

/-! ## Copies -/

/-- The call has put the part into the cache and not yet ended its INSERT. -/
def WritesAt (s : State) (k : Nat) (X : UploadID) (part : CompletedPart) : Prop :=
  ∃ call, s.calls[k]? = some call ∧ call.uploadID = X ∧ call.phase = .insertPart part

def Writing (s : State) (X : UploadID) (part : CompletedPart) : Prop := ∃ k, WritesAt s k X part

/-- A pointer of the replica to the upload, cached or loaded by a
`FinalizeUpload`. -/
def Points (s : State) (X : UploadID) (r : ReplicaID) (i : Nat) : Prop :=
  s.store.cached r X = some i
    ∨ ∃ (k : Nat) (call : Call), s.calls[k]? = some call ∧ call.uploadID = X ∧ call.replica = r
        ∧ call.request = .finalizeUpload ∧ call.phase = .loaded i

/-- A call on the replica has read the upload from the store, to cache it. -/
def Reads (s : State) (X : UploadID) (r : ReplicaID) (stored : Upload) : Prop :=
  ∃ (k : Nat) (call : Call), s.calls[k]? = some call ∧ call.uploadID = X ∧ call.replica = r
    ∧ call.phase = .cache stored

/-- The parts of an upload that a `FinalizeUpload` on the replica may yet send. -/
inductive Copy (s : State) (X : UploadID) (r : ReplicaID) : List CompletedPart → Prop
  | held {i : Nat} {object : Object} (hpoints : Points s X r i)
      (hobject : s.store.objects[i]? = some object) : Copy s X r object.upload.completeParts
  | read {stored : Upload} (hreads : Reads s X r stored) : Copy s X r stored.completeParts

/-! ## The condition -/

/-- After the INSERT of a part by a call, the copy holds under its number what
is recorded, or a part of another call that is still to be inserted. -/
def KeptUp (s : State) (k : Nat) (X : UploadID) (n : Int) (recorded : Option CompletedPart)
    (parts : List CompletedPart) : Prop :=
  partAt n parts = recorded
    ∨ ∃ j p, j ≠ k ∧ WritesAt s j X p ∧ p.partNumber = n ∧ partAt n parts = some p

/-- No INSERT of a part of the upload leaves a copy of the replica behind, and
a `FinalizeUpload` on the replica sends the parts while the upload is tracked. -/
def Steady (X : UploadID) (r : ReplicaID) (s : State) : Action → Prop
  | .world _ => True
  | .exec k o => ∀ call, s.calls[k]? = some call → call.uploadID = X →
      match call.phase with
      | .insertPart part => ∀ row, s.store.store X = some row → ∀ parts, Copy s X r parts →
          KeptUp s k X part.partNumber
            (if o.upsert.part = none then some part
              else partAt part.partNumber row.completeParts) parts
      | .loaded _ => call.request = .finalizeUpload → call.replica = r →
          (s.store.store X).isSome
      | _ => True

/-- What a call on the replica sends to S3 to complete the upload, while no
`CompletePart` of it is between its cache and the end of its INSERT, are the
recorded parts: each number once, ascending, with the recorded ETag. -/
def SendsRecorded (X : UploadID) (r : ReplicaID) (s : State) (a : Action) : Prop :=
  ∀ k o call key sent, a = .exec k o → s.calls[k]? = some call → call.replica = r →
    (service.step s a).store.sent = s.store.sent ++ [.complete key X sent] →
    (∀ part, ¬Writing s X part) →
    Ascending (s.store.parts X)
      ∧ sent = (s.store.parts X).map fun p => (p.partNumber, p.etag)

/-! ## The invariant -/

/-- A copy against the rows of its upload. -/
structure Agrees (s : State) (X : UploadID) (recorded parts : List CompletedPart) : Prop where
  distinct : Distinct parts
  same : ∀ n, partAt n parts = partAt n recorded
    ∨ ∃ p, Writing s X p ∧ p.partNumber = n ∧ partAt n parts = some p

/-- The copies of the replica agree with the rows of the upload, while it is
tracked. -/
structure Coherent (X : UploadID) (r : ReplicaID) (s : State) : Prop
    extends Calls.Holds Global Local s where
  copy : ∀ row parts, s.store.store X = some row → Copy s X r parts →
    Agrees s X row.completeParts parts

/-! ## Copies after a statement -/

section Statement

variable {g : Fleet} {call : Call} {o : Outcome} {phase : Phase} {next : State} {i : Nat}
variable {stored : Upload}

/-- The state after a statement of the call of index `k`. -/
structure After (s : State) (k : Nat) (call : Call) (g : Fleet) (phase : Phase) (next : State) :
    Prop where
  before : s.calls[k]? = some call
  store : next.store = g
  self : next.calls[k]? = some (call.next phase)
  others : ∀ j, j ≠ k → next.calls[j]? = s.calls[j]?

theorem After.writesAt (h : After s k call g phase next) {j : Nat} (hj : j ≠ k) :
    WritesAt next j X part ↔ WritesAt s j X part := by
  rw [WritesAt, WritesAt, h.others j hj]

theorem After.writesAt_self (h : After s k call g phase next) :
    WritesAt next k X part ↔ call.uploadID = X ∧ phase = .insertPart part := by
  rw [WritesAt, h.self]
  exact ⟨fun ⟨_, hcall, hX, hphase⟩ => by cases hcall; exact ⟨hX, hphase⟩,
    fun ⟨hX, hphase⟩ => ⟨_, rfl, hX, hphase⟩⟩

theorem After.writing (h : After s k call g phase next)
    (hidle : ∀ part, call.phase ≠ .insertPart part) (hwriting : Writing s X part) :
    Writing next X part := by
  obtain ⟨j, hj⟩ := hwriting
  by_cases hjk : j = k
  · subst hjk
    obtain ⟨call', hcall', -, hphase⟩ := hj
    rw [h.before] at hcall'
    obtain rfl := Option.some.inj hcall'
    exact absurd hphase (hidle part)
  · exact ⟨j, (h.writesAt hjk).mpr hj⟩

/-- Pointers after a statement: what is cached, what was pointed to, or what
the call has loaded. -/
theorem After.points (h : After s k call g phase next) (hpoints : Points next X r i) :
    g.cached r X = some i ∨ Points s X r i
      ∨ call.uploadID = X ∧ call.replica = r ∧ phase = .loaded i := by
  rcases hpoints with hcached | ⟨j, call', hj, hX, hr, hrequest, hphase⟩
  · rw [h.store] at hcached
    exact .inl hcached
  · by_cases hjk : j = k
    · subst hjk
      rw [h.self] at hj
      obtain rfl := Option.some.inj hj
      exact .inr (.inr ⟨hX, hr, hphase⟩)
    · rw [h.others j hjk] at hj
      exact .inr (.inl (.inr ⟨j, call', hj, hX, hr, hrequest, hphase⟩))

theorem After.reads (h : After s k call g phase next) (hreads : Reads next X r stored) :
    Reads s X r stored ∨ call.uploadID = X ∧ call.replica = r ∧ phase = .cache stored := by
  obtain ⟨j, call', hj, hX, hr, hphase⟩ := hreads
  by_cases hjk : j = k
  · subst hjk
    rw [h.self] at hj
    obtain rfl := Option.some.inj hj
    exact .inr ⟨hX, hr, hphase⟩
  · rw [h.others j hjk] at hj
    exact .inl ⟨j, call', hj, hX, hr, hphase⟩

/-- No copy is new, where nothing is cached anew, and what the call holds next
is no copy or cached already. -/
theorem After.copy (h : After s k call g phase next) (hobjects : g.objects = s.store.objects)
    (hcached : ∀ i, g.cached r X = some i → s.store.cached r X = some i)
    (hloaded : ∀ i, phase = .loaded i → s.store.cached call.replica call.uploadID = some i)
    (hread : ∀ stored, phase ≠ .cache stored) (hcopy : Copy next X r parts) : Copy s X r parts := by
  cases hcopy with
  | @held i object hpoints hobject =>
    rw [h.store, hobjects] at hobject
    refine .held ?_ hobject
    rcases h.points hpoints with hnew | hold | ⟨hX, hr, hphase⟩
    · exact .inl (hcached i hnew)
    · exact hold
    · have hi := hloaded i hphase
      rw [hX, hr] at hi
      exact .inl hi
  | @read stored hreads =>
    rcases h.reads hreads with hold | ⟨-, -, hphase⟩
    · exact .read hold
    · exact absurd hphase (hread stored)

theorem Agrees.mono {s' : State} {recorded : List CompletedPart}
    (hwriting : ∀ p, Writing s X p → Writing s' X p) (h : Agrees s X recorded parts) :
    Agrees s' X recorded parts := by
  refine ⟨h.distinct, fun n => ?_⟩
  rcases h.same n with hsame | ⟨p, hp, hn, hpart⟩
  · exact .inl hsame
  · exact .inr ⟨p, hwriting p hp, hn, hpart⟩

theorem Agrees.refl (h : Ascending parts) : Agrees s X parts parts :=
  ⟨h.distinct, fun _ => .inl rfl⟩

theorem Coherent.object (h : Coherent X r s) (hpoints : Points s X r i) :
    ∃ object : Object, s.store.objects[i]? = some object ∧ object.uploadID = X := by
  rcases hpoints with hcached | ⟨j, call', hj, rfl, -, -, hphase⟩
  · exact h.store.cached r X i hcached
  · have hlocal := h.call j call' hj
    rw [Local, hphase] at hlocal
    exact hlocal

/-- The copies agree with the rows, as `Coherent` has it. -/
def CopiesAgree (X : UploadID) (r : ReplicaID) (s : State) : Prop :=
  ∀ row parts, s.store.store X = some row → Copy s X r parts → Agrees s X row.completeParts parts

/-- Nothing new to agree: every copy was one before, and the rows keep their parts. -/
theorem After.kept (h : After s k call g phase next) (hs : Coherent X r s)
    (hidle : ∀ part, call.phase ≠ .insertPart part)
    (hrow : ∀ row, g.store X = some row →
      ∃ before, s.store.store X = some before ∧ before.completeParts = row.completeParts)
    (hold : ∀ parts, Copy next X r parts → Copy s X r parts) : CopiesAgree X r next := by
  intro row parts hafter hcopy
  rw [h.store] at hafter
  obtain ⟨before, hbefore, hparts⟩ := hrow row hafter
  rw [← hparts]
  exact (hs.copy before parts hbefore (hold parts hcopy)).mono fun p => h.writing hidle

theorem After.plain (h : After s k call g phase next) (hs : Coherent X r s)
    (hfades : Fades s.store g) (hplain : phase.Plain)
    (hidle : ∀ part, call.phase ≠ .insertPart part) : CopiesAgree X r next := by
  refine h.kept hs hidle (hfades.row X) fun parts => h.copy hfades.objects ?_ ?_ ?_
  · exact fun i => hfades.cached r X i
  · rintro i rfl
    exact hplain.elim
  · rintro stored rfl
    exact hplain

theorem After.hit (h : After s k call s.store (.loaded i) next) (hs : Coherent X r s)
    (hcached : s.store.cached call.replica call.uploadID = some i)
    (hidle : ∀ part, call.phase ≠ .insertPart part) : CopiesAgree X r next := by
  refine h.kept hs hidle (fun row hrow => ⟨row, hrow, rfl⟩) fun parts =>
    h.copy rfl (fun _ hi => hi) ?_ (by simp)
  intro j hj
  obtain rfl := Phase.loaded.inj hj
  exact hcached

theorem After.row {found : Upload} (h : After s k call s.store (.getParts found) next)
    (hs : Coherent X r s) (hidle : ∀ part, call.phase ≠ .insertPart part) :
    CopiesAgree X r next :=
  h.kept hs hidle (fun row hrow => ⟨row, hrow, rfl⟩) fun _ =>
    h.copy rfl (fun _ hi => hi) (by simp) (by simp)

theorem After.points_old (h : After s k call g phase next)
    (hcached : g.cached = s.store.cached) (hphase : ∀ i, phase ≠ .loaded i)
    (hpoints : Points next X r i) : Points s X r i := by
  rcases h.points hpoints with hnew | hold | ⟨-, -, hloaded⟩
  · rw [hcached] at hnew
    exact .inl hnew
  · exact hold
  · exact absurd hloaded (hphase i)

theorem After.read (h : After s k call s.store (.cache stored) next) (hs : Coherent X r s)
    (hparts : stored.completeParts = s.store.parts call.uploadID)
    (hidle : ∀ part, call.phase ≠ .insertPart part) : CopiesAgree X r next := by
  intro row parts hrow hcopy
  rw [h.store] at hrow
  cases hcopy with
  | @held i object hpoints hobject =>
    rw [h.store] at hobject
    have hold : Points s X r i := h.points_old rfl (by simp) hpoints
    exact (hs.copy row _ hrow (.held hold hobject)).mono fun p => h.writing hidle
  | @read found hreads =>
    rcases h.reads hreads with hold | ⟨rfl, -, hphase⟩
    · exact (hs.copy row _ hrow (.read hold)).mono fun p => h.writing hidle
    · obtain rfl := Phase.cache.inj hphase
      rw [hparts, parts_of_row hrow]
      exact .refl (hs.store.row _ row hrow).2

/-- What a pointer leads to stays where it is when an object is placed. -/
theorem Coherent.place_object (hs : Coherent X r s) (hpoints : Points s X r i)
    {replica : ReplicaID} {Y : UploadID} {upload : Upload} {object : Object}
    (hobject : (s.store.place replica Y upload).objects[i]? = some object) :
    Copy s X r object.upload.completeParts := by
  obtain ⟨before, hbefore, -⟩ := hs.object hpoints
  rw [objects_place_of_lt _ _ _ (List.getElem?_eq_some_iff.mp hbefore).1] at hobject
  exact .held hpoints hobject

theorem After.place (hphase : call.phase = .cache stored)
    (h : After s k call (s.store.place call.replica call.uploadID stored)
      (.loaded s.store.objects.length) next) (hs : Coherent X r s) : CopiesAgree X r next := by
  have hnew : ∀ {object : Object}, (s.store.place call.replica call.uploadID stored).objects[
      s.store.objects.length]? = some object →
      Copy s call.uploadID call.replica object.upload.completeParts := by
    intro object hobject
    rw [objects_place_length] at hobject
    rw [← Option.some.inj hobject]
    exact .read ⟨k, call, h.before, rfl, rfl, hphase⟩
  refine h.kept hs (by simp [hphase]) (fun row hrow => ⟨row, hrow, rfl⟩) fun parts hcopy => ?_
  cases hcopy with
  | @held i object hpoints hobject =>
    rw [h.store] at hobject
    rcases h.points hpoints with hcached | hold | ⟨rfl, rfl, hloaded⟩
    · rw [Fleet.place, cached_setCached] at hcached
      split at hcached
      case isTrue hself =>
        obtain rfl := Option.some.inj hcached
        obtain ⟨rfl, rfl⟩ := hself
        exact hnew hobject
      case isFalse => exact hs.place_object (.inl hcached) hobject
    · exact hs.place_object hold hobject
    · obtain rfl := Phase.loaded.inj hloaded
      exact hnew hobject
  | @read found hreads =>
    rcases h.reads hreads with hold | ⟨-, -, hcache⟩
    · exact .read hold
    · cases hcache

/-- The call's own object gets the part, which is now to be inserted. -/
theorem After.record {object updated : Object} (hphase : call.phase = .loaded i)
    (hobject : s.store.objects[i]? = some object)
    (hparts : updated.upload.completeParts = upsertCached part object.upload.completeParts)
    (h : After s k call (s.store.setObject i updated) (.insertPart part) next)
    (hs : Coherent X r s) : CopiesAgree X r next := by
  have hidle : ∀ part, call.phase ≠ .insertPart part := by simp [hphase]
  intro row parts hrow hcopy
  rw [h.store] at hrow
  cases hcopy with
  | @read found hreads =>
    rcases h.reads hreads with hold | ⟨-, -, hcache⟩
    · exact (hs.copy row _ hrow (.read hold)).mono fun p => h.writing hidle
    · cases hcache
  | @held j after hpoints hafter =>
    have hold : Points s X r j := h.points_old rfl (by simp) hpoints
    rw [h.store] at hafter
    replace hafter : (s.store.objects.set i updated)[j]? = some after := hafter
    by_cases hij : i = j
    case neg =>
      rw [List.getElem?_set_ne hij] at hafter
      exact (hs.copy row _ hrow (.held hold hafter)).mono fun p => h.writing hidle
    case pos =>
      subst hij
      rw [List.getElem?_set_self (List.getElem?_eq_some_iff.mp hobject).1] at hafter
      obtain rfl := Option.some.inj hafter
      -- the object is of the upload that the call names
      obtain ⟨before, hbefore, hX⟩ := hs.object hold
      have hlocal := hs.call k call h.before
      rw [Local, hphase] at hlocal
      obtain ⟨loaded, hloaded, hcall⟩ := hlocal
      rw [hobject] at hbefore hloaded
      obtain rfl := Option.some.inj hbefore
      obtain rfl := Option.some.inj hloaded
      have hid : call.uploadID = X := hcall.symm.trans hX
      have hagrees := hs.copy row _ hrow (.held hold hobject)
      rw [hparts]
      refine ⟨hagrees.distinct.upsertCached, fun n => ?_⟩
      rw [partAt_upsertCached]
      by_cases hn : part.partNumber = n
      · rw [if_pos hn]
        exact .inr ⟨part, ⟨k, h.writesAt_self.mpr ⟨hid, rfl⟩⟩, hn, rfl⟩
      · rw [if_neg hn]
        exact (hagrees.mono fun p => h.writing hidle).same n

theorem After.writing_other (h : After s k call g phase next) (hphase : call.phase = .insertPart part)
    {p : CompletedPart} (hother : X ≠ call.uploadID ∨ p.partNumber ≠ part.partNumber)
    (hwriting : Writing s X p) : Writing next X p := by
  obtain ⟨j, hj⟩ := hwriting
  by_cases hjk : j = k
  · subst hjk
    obtain ⟨call', hcall', hX, hphase'⟩ := hj
    rw [h.before] at hcall'
    obtain rfl := Option.some.inj hcall'
    rw [hphase] at hphase'
    obtain rfl := Phase.insertPart.inj hphase'
    rcases hother with hne | hne
    · exact absurd hX.symm hne
    · exact absurd rfl hne
  · exact ⟨j, (h.writesAt hjk).mpr hj⟩

/-- **The end of an INSERT**, after which the rows differ from those before in
the number of the part alone: what is kept up agrees. -/
theorem After.inserted (h : After s k call g phase next) (hs : Coherent X r s)
    (hphase : call.phase = .insertPart part) (hplain : phase.Plain)
    (hobjects : g.objects = s.store.objects) (hcached : g.cached = s.store.cached)
    (hrest : X ≠ call.uploadID → g.store X = s.store.store X)
    (hself : ∀ row, call.uploadID = X → g.store X = some row →
      ∃ before, s.store.store X = some before
        ∧ (∀ n, n ≠ part.partNumber → partAt n row.completeParts = partAt n before.completeParts)
        ∧ ∀ parts, Copy s X r parts → KeptUp s k X part.partNumber
            (partAt part.partNumber row.completeParts) parts) : CopiesAgree X r next := by
  intro row parts hrow hcopy
  rw [h.store] at hrow
  have hold : Copy s X r parts := by
    refine h.copy hobjects (fun i hi => by rwa [hcached] at hi) ?_ ?_ hcopy
    · rintro i rfl
      exact hplain.elim
    · rintro stored rfl
      exact hplain
  by_cases hX : X = call.uploadID
  case neg =>
    rw [hrest hX] at hrow
    exact (hs.copy row parts hrow hold).mono fun p => h.writing_other hphase (.inl hX)
  case pos =>
    obtain ⟨before, hbefore, hsame, hkept⟩ := hself row hX.symm hrow
    have hagrees := hs.copy before parts hbefore hold
    refine ⟨hagrees.distinct, fun n => ?_⟩
    by_cases hn : n = part.partNumber
    · subst hn
      rcases hkept parts hold with hrecorded | ⟨j, p, hjk, hwrites, hnumber, hpart⟩
      · exact .inl hrecorded
      · exact .inr ⟨p, ⟨j, (h.writesAt hjk).mpr hwrites⟩, hnumber, hpart⟩
    · rw [hsame n hn]
      rcases hagrees.same n with hrecorded | ⟨p, hwriting, hnumber, hpart⟩
      · exact .inl hrecorded
      · exact .inr ⟨p, h.writing_other hphase (.inr (by rwa [hnumber])) hwriting, hnumber, hpart⟩

theorem Steady.kept {row : Upload} (hok : Steady X r s (.exec k o)) (hk : s.calls[k]? = some call)
    (hX : call.uploadID = X) (hphase : call.phase = .insertPart part)
    (hrow : s.store.store X = some row) (hcopy : Copy s X r parts) :
    KeptUp s k X part.partNumber (if o.upsert.part = none then some part
      else partAt part.partNumber row.completeParts) parts := by
  have hcall := hok call hk hX
  rw [hphase] at hcall
  exact hcall row hrow parts hcopy

theorem After.insert {row recorded : Upload} (hphase : call.phase = .insertPart part)
    (hpart : o.upsert.part = none) (hrow : s.store.store call.uploadID = some row)
    (hparts : recorded.completeParts = upsertStored part row.completeParts)
    (h : After s k call (s.store.setRow call.uploadID (some recorded)) .touch next)
    (hs : Coherent X r s) (hok : Steady X r s (.exec k o)) : CopiesAgree X r next := by
  refine h.inserted hs hphase trivial rfl rfl (fun hX => store_setRow_ne hX) ?_
  rintro after rfl hafter
  rw [store_setRow_self] at hafter
  obtain rfl := Option.some.inj hafter
  refine ⟨row, hrow, ?_, ?_⟩
  · intro n hn
    rw [hparts, partAt_upsertStored, if_neg (Ne.symm hn)]
  · intro parts hcopy
    have hkept := hok.kept h.before rfl hphase hrow hcopy
    rw [if_pos hpart] at hkept
    rwa [hparts, partAt_upsertStored, if_pos rfl]

theorem After.failed (hphase : call.phase = .insertPart part) (hplain : phase.Plain)
    (hpart : o.upsert.part ≠ none ∨ s.store.store call.uploadID = none)
    (h : After s k call s.store phase next)
    (hs : Coherent X r s) (hok : Steady X r s (.exec k o)) : CopiesAgree X r next := by
  refine h.inserted hs hphase hplain rfl rfl (fun _ => rfl) ?_
  rintro row rfl hrow
  refine ⟨row, hrow, fun _ _ => rfl, ?_⟩
  intro parts hcopy
  rcases hpart with hpart | hnone
  · have hkept := hok.kept h.before rfl hphase hrow hcopy
    rwa [if_neg hpart] at hkept
  · rw [hnone] at hrow
    cases hrow

end Statement

/-! ## Steps -/

variable {g : Fleet} {call : Call} {phase : Phase} {next : State}

theorem After.stay (h : After s k call s.store call.phase next) : next = s := by
  have hcalls : next.calls = s.calls := by
    apply List.ext_getElem?
    intro j
    by_cases hj : j = k
    · subst hj
      rw [h.self, h.before]
      rfl
    · exact h.others j hj
  have hstore : next.store = s.store := h.store
  cases next
  cases s
  simp_all

theorem Coherent.exec (hs : Coherent X r s) (hk : s.calls[k]? = some call) (o : Outcome)
    (hok : Steady X r s (.exec k o)) : Coherent X r (service.step s (.exec k o)) := by
  obtain ⟨g, phase, hexec, hmove⟩ := moves_exec k s.store call o
  have hafter : After s k call g phase (service.step s (.exec k o)) := by
    refine ⟨hk, ?_, ?_, fun j hj => Calls.Service.step_exec_ne hj o⟩
    · rw [Calls.Service.step_exec_store hk]
      exact congrArg Prod.fst hexec
    · rw [Calls.Service.step_exec_self hk]
      exact congrArg some (congrArg Prod.snd hexec)
  have hcall := hs.call k call hk
  constructor
  · constructor
    · rw [hafter.store]
      exact hmove.global hs.store hcall
    · intro j q hj
      rw [hafter.store]
      by_cases hjk : j = k
      · subst hjk
        rw [hafter.self] at hj
        obtain rfl := Option.some.inj hj
        exact hmove.local hs.store hcall
      · rw [hafter.others j hjk] at hj
        exact Local.mono hmove.extends (hs.call j q hj)
  · cases hmove with
    | plain hfades hplain hidle => exact hafter.plain hs hfades hplain hidle
    | hit hcached hidle => exact hafter.hit hs hcached hidle
    | row hrow hidle => exact hafter.row hs hidle
    | read hphase hparts => exact hafter.read hs hparts (by simp [hphase])
    | place hphase => exact After.place hphase hafter hs
    | record hphase hobject _ hparts => exact After.record hphase hobject hparts hafter hs
    | insert hphase hpart hrow hparts =>
      exact After.insert hphase hpart hrow hparts hafter hs hok
    | failed hphase hplain hpart => exact After.failed hphase hplain hpart hafter hs hok
    | stay =>
      rw [hafter.stay]
      exact hs.copy

theorem Coherent.request (hs : Coherent X r s) (replica : ReplicaID) (userID : UserID)
    (vaultID : VaultID) (uploadID : UploadID) (request : Request) :
    Coherent X r
      (service.step s (.world (.request replica userID vaultID uploadID request))) := by
  have hcall : ∀ {j : Nat} {q : Call}, (service.step s (.world (.request replica userID vaultID
      uploadID request))).calls[j]? = some q → s.calls[j]? = some q ∨ q.phase = .authorize := by
    intro j q hj
    rcases Calls.Service.of_step_world hj with hold | ⟨-, hnew⟩
    · exact .inl hold
    · rw [← Option.some.inj hnew]
      exact .inr rfl
  constructor
  · refine ⟨hs.store, fun j q hj => ?_⟩
    rcases hcall hj with hold | hphase
    · exact hs.call j q hold
    · rw [Local, hphase]
      trivial
  · intro row parts hrow hcopy
    have hold : Copy s X r parts := by
      cases hcopy with
      | @held i object hpoints hobject =>
        refine .held ?_ hobject
        rcases hpoints with hcached | ⟨j, q, hj, hX, hr, hrequest, hphase⟩
        · exact .inl hcached
        · rcases hcall hj with hj | hauthorize
          · exact .inr ⟨j, q, hj, hX, hr, hrequest, hphase⟩
          · rw [hauthorize] at hphase
            cases hphase
      | @read stored hreads =>
        obtain ⟨j, q, hj, hX, hr, hphase⟩ := hreads
        rcases hcall hj with hj | hauthorize
        · exact .read ⟨j, q, hj, hX, hr, hphase⟩
        · rw [hauthorize] at hphase
          cases hphase
    refine (hs.copy row parts hrow hold).mono ?_
    rintro p ⟨j, q, hj, hX, hphase⟩
    exact ⟨j, q, Calls.Service.step_world_of hj _, hX, hphase⟩

/-- What is pointed to or read is of an identifier that has been issued. -/
theorem Coherent.issued (hs : Coherent X r s) (hcopy : Copy s X r parts) :
    s.store.issued X = true := by
  cases hcopy with
  | held hpoints =>
    obtain ⟨object, hobject, rfl⟩ := hs.object hpoints
    exact hs.store.object _ object hobject
  | read hreads =>
    obtain ⟨j, q, hj, rfl, -, hphase⟩ := hreads
    have hlocal := hs.call j q hj
    rw [Local, hphase] at hlocal
    exact hlocal

theorem Coherent.track (hs : Coherent X r s) (replica : ReplicaID) {Y : UploadID} {upload : Upload}
    (requests : List S3Request) (hfresh : s.store.issued Y = false)
    (hempty : upload.completeParts = []) :
    Coherent X r ⟨s.store.track replica Y upload requests, s.calls⟩ := by
  constructor
  · exact ⟨hs.store.track replica Y requests hempty,
      fun j q hj => Local.mono (.track _ _ _ _ _) (hs.call j q hj)⟩
  · intro row parts hrow hcopy
    let next : State := ⟨s.store.track replica Y upload requests, s.calls⟩
    have hwriting : ∀ p, Writing s X p → Writing next X p := fun _ h => h
    have hkept : Copy s X r parts → Agrees next X row.completeParts parts := by
      intro hold
      have hXY : X ≠ Y := by
        rintro rfl
        rw [hs.issued hold] at hfresh
        cases hfresh
      have hrow' : s.store.store X = some row := by
        rw [← hrow]
        exact (store_setRow_ne hXY).symm
      exact (hs.copy row parts hrow' hold).mono hwriting
    cases hcopy with
    | @read stored hreads => exact hkept (.read hreads)
    | @held i object hpoints hobject =>
      replace hobject : (s.store.place replica Y upload).objects[i]? = some object := hobject
      rcases hpoints with hcached | hloaded
      · rw [Fleet.track, Fleet.place, cached_setCached] at hcached
        split at hcached
        case isTrue hself =>
          obtain rfl := Option.some.inj hcached
          obtain ⟨-, rfl⟩ := hself
          have hrow' : some upload = some row := by
            rw [← hrow]
            exact store_setRow_self.symm
          obtain rfl := Option.some.inj hrow'
          have hobject' : some ⟨X, upload⟩ = some object := by
            rw [← hobject]
            exact (objects_place_length replica X upload).symm
          rw [← Option.some.inj hobject', hempty]
          exact .refl List.Pairwise.nil
        case isFalse => exact hkept (hs.place_object (.inl hcached) hobject)
      · exact hkept (hs.place_object (.inr hloaded) hobject)

theorem Coherent.send (hs : Coherent X r s) (requests : List S3Request) :
    Coherent X r ⟨s.store.send requests, s.calls⟩ := by
  refine ⟨⟨hs.store.send requests, fun j q hj => hs.call j q hj⟩, ?_⟩
  intro row parts hrow hcopy
  have hold : Copy s X r parts := by
    cases hcopy with
    | held hpoints hobject => exact .held hpoints hobject
    | read hreads => exact .read hreads
  have hwriting : ∀ p, Writing s X p → Writing ⟨s.store.send requests, s.calls⟩ X p :=
    fun _ h => h
  exact (hs.copy row parts hrow hold).mono hwriting

theorem step_initiate (s : State) (replica : ReplicaID) (userID : UserID) (vaultID : VaultID)
    (fileID : BlobID) (totalSize : Int) (o : InitiateOutcome) :
    service.step s (.world (.initiate replica userID vaultID fileID totalSize o))
      = ⟨if s.store.isFresh o then s.store.initiate replica userID vaultID fileID totalSize o
          else s.store, s.calls⟩ := by
  simp [Calls.Service.step, service, world]

theorem Coherent.world (hs : Coherent X r s) (e : Event) :
    Coherent X r (service.step s (.world e)) := by
  cases e with
  | request replica userID vaultID uploadID request => exact hs.request _ _ _ _ _
  | initiate replica userID vaultID fileID totalSize o =>
    rw [step_initiate]
    by_cases hfresh : s.store.isFresh o
    · rw [if_pos hfresh]
      obtain ⟨requests, -, hsent | ⟨Y, upload, hcreate, hempty, htrack⟩⟩ :=
        initiate_cases s.store replica userID vaultID fileID totalSize o
      · rw [hsent]
        exact hs.send requests
      · have hY : s.store.issued Y = false := by simpa [Fleet.isFresh, hcreate] using hfresh
        rw [htrack]
        exact hs.track replica requests hY hempty
    · rw [if_neg hfresh]
      exact hs

theorem Coherent.start (X : UploadID) (r : ReplicaID) : Coherent X r start := by
  refine ⟨Calls.Holds.initial Global.start, ?_⟩
  intro row parts hrow
  cases hrow

/-! ## What is sent -/

theorem Coherent.sends (hs : Coherent X r s) (a : Action) (hok : Steady X r s a) :
    SendsRecorded X r s a := by
  rintro k o call key sent rfl hk hr hsent hidle
  rw [Calls.Service.step_exec hk] at hsent
  obtain ⟨hrequest, hX, i, object, hphase, hobject, rfl⟩ := sent_exec hsent
  have htracked := hok call hk hX
  rw [hphase] at htracked
  obtain ⟨row, hrow⟩ := Option.isSome_iff_exists.mp (htracked hrequest hr)
  have hpoints : Points s X r i := .inr ⟨k, call, hk, hX, hr, hrequest, hphase⟩
  have hagrees := hs.copy row _ hrow (.held hpoints hobject)
  have hascending := (hs.store.row X row hrow).2
  have hsame : ∀ n, partAt n object.upload.completeParts = partAt n row.completeParts := by
    intro n
    rcases hagrees.same n with hsame | ⟨p, hwriting, -⟩
    · exact hsame
    · exact absurd hwriting (hidle p)
  rw [parts_of_row hrow, MultipartService.sentParts,
    sort_eq hagrees.distinct hascending hsame]
  exact ⟨hascending, rfl⟩

/-- **A `FinalizeUpload` sends exactly the recorded parts**, each number once
and ascending, on every replica and for every upload, in the runs in which no
INSERT of a part leaves the copy of this replica behind and the upload is
still tracked when it is finalised. -/
theorem finalize_sends_recorded (X : UploadID) (r : ReplicaID) (actions : List Action)
    (hrun : Run.Each service.step (Steady X r) start actions) :
    Run.Each service.step (SendsRecorded X r) start actions := by
  refine Run.Each.imp (fun s a (hs : Coherent X r s) hok => hs.sends a hok)
    (Calls.Service.keeps ?_ ?_) (Coherent.start X r) hrun
  · intro s e hs _
    exact hs.world e
  · intro s k call o hs hok hk
    exact hs.exec hk o hok

/-! ## Runs of two replicas -/

/-- Every statement succeeds. -/
def fine : Outcome where
  get := ⟨none, none⟩
  upsert := ⟨none, "foreign key", none⟩
  presign := none
  complete := none
  head := .ok 5
  billing := .unset
  usage := none
  abort := none
  untrack := true
  now := 0

def requested (replica : ReplicaID) (request : Request) : Action :=
  .world (.request replica "user-a" 1 7 request)

/-- An upload that starts on the first replica, with a part through each of
the two; the second loads the upload from the store. -/
def twoParts : List Action :=
  [.world (.initiate 0 "user-a" 1 1 5 ⟨.unset, .ok 7, none, "duplicate key", 0⟩),
    requested 0 (.completePart ⟨2, "etag-2", 5⟩), .exec 0 fine, .exec 0 fine, .exec 0 fine,
    .exec 0 fine,
    requested 1 (.completePart ⟨1, "etag-1", 5⟩), .exec 1 fine, .exec 1 fine, .exec 1 fine,
    .exec 1 fine, .exec 1 fine, .exec 1 fine, .exec 1 fine]

/-- `FinalizeUpload` on the replica, up to its request to S3. -/
def finalizeOn (replica : ReplicaID) : List Action :=
  [requested replica .finalizeUpload, .exec 2 fine, .exec 2 fine]

/-- Neither about to insert a part nor about to send the parts. -/
def Call.quiet (call : Call) : Bool :=
  match call.phase, call.request with
  | .insertPart _, _ => false
  | .loaded _, .finalizeUpload => false
  | _, _ => true

/-- Holding nothing that is cached or sent. -/
def Call.holdsNothing (call : Call) : Bool :=
  match call.phase with
  | .cache _ => false
  | .loaded _ => false
  | _ => true

theorem steady_quiet {o : Outcome} (hk : s.calls[k]? = some call) (hquiet : call.quiet = true) :
    Steady X r s (.exec k o) := by
  intro call' hk' _
  rw [hk] at hk'
  obtain rfl := Option.some.inj hk'
  rw [Call.quiet] at hquiet
  cases hphase : call.phase with
  | insertPart part => simp [hphase] at hquiet
  | loaded i =>
    intro hrequest
    simp [hphase, hrequest] at hquiet
  | _ => trivial

/-- An INSERT while what the replica has cached of the upload has the part. -/
theorem steady_insert (hk : s.calls[k]? = some call) (hphase : call.phase = .insertPart part)
    (hcalls : s.calls.all Call.holdsNothing = true)
    (hcached : ∀ i, s.store.cached r X = some i → ∃ object, s.store.objects[i]? = some object
      ∧ partAt part.partNumber object.upload.completeParts = some part) :
    Steady X r s (.exec k fine) := by
  have hnothing : ∀ {j : Nat} {q : Call}, s.calls[j]? = some q → q.holdsNothing = true :=
    fun hj => List.all_eq_true.mp hcalls _ (List.mem_of_getElem? hj)
  intro call' hk' _
  rw [hk] at hk'
  obtain rfl := Option.some.inj hk'
  rw [hphase]
  intro row hrow parts hcopy
  left
  cases hcopy with
  | @held i found hpoints hobject =>
    rcases hpoints with hi | ⟨j, q, hj, -, -, -, hloaded⟩
    · obtain ⟨object, hobject', hpart⟩ := hcached i hi
      rw [hobject'] at hobject
      obtain rfl := Option.some.inj hobject
      exact hpart
    · have hq := hnothing hj
      simp [Call.holdsNothing, hloaded] at hq
  | read hreads =>
    obtain ⟨j, q, hj, -, -, hcache⟩ := hreads
    have hq := hnothing hj
    simp [Call.holdsNothing, hcache] at hq

/-- The second replica has both parts. -/
theorem finalize_sends_recorded_sample :
    Run.Each service.step (SendsRecorded 7 1) start (twoParts ++ finalizeOn 1)
      ∧ (service.run start (twoParts ++ finalizeOn 1)).store.sent
          = [.create (.file 1 1), .complete (.file 1 1) 7 [(1, "etag-1"), (2, "etag-2")]] := by
  refine ⟨finalize_sends_recorded 7 1 (twoParts ++ finalizeOn 1) ?_, rfl⟩
  refine ⟨trivial, trivial, steady_quiet rfl rfl, steady_quiet rfl rfl,
    steady_insert rfl rfl rfl ?_, steady_quiet rfl rfl,
    trivial, steady_quiet rfl rfl, steady_quiet rfl rfl, steady_quiet rfl rfl,
    steady_quiet rfl rfl, steady_quiet rfl rfl, steady_insert rfl rfl rfl ?_,
    steady_quiet rfl rfl, trivial, steady_quiet rfl rfl, ?_, trivial⟩
  · intro i hcached
    cases hcached
  · intro i hcached
    obtain rfl := Option.some.inj hcached
    exact ⟨_, rfl, rfl⟩
  · intro call hcall hX
    obtain rfl := Option.some.inj hcall
    exact fun _ _ => rfl

theorem idle_of_calls (h : s.calls.all (fun call => match call.phase with
      | .insertPart _ => false
      | _ => true) = true) (part : CompletedPart) : ¬Writing s X part := by
  rintro ⟨k, call, hk, -, hphase⟩
  have hcall := List.all_eq_true.mp h call (List.mem_of_getElem? hk)
  simp [hphase] at hcall

/-- On the first replica, the copy misses the part that the second has
recorded, though every `CompletePart` has returned. -/
theorem stale_copy_sent :
    ¬Run.Each service.step (SendsRecorded 7 0) start (twoParts ++ finalizeOn 0) := by
  let pre := twoParts ++ [requested 0 .finalizeUpload, .exec 2 fine]
  intro h
  have hrun : Run.Each service.step (SendsRecorded 7 0) start (pre ++ [.exec 2 fine]) := h
  have hlast : SendsRecorded 7 0 (service.run start pre) (.exec 2 fine) :=
    (Run.Each.append.mp hrun).2.1
  obtain ⟨-, hsent⟩ := hlast 2 fine _ (.file 1 1) [(2, "etag-2")] rfl rfl rfl rfl
    (idle_of_calls rfl)
  exact absurd hsent (by decide)

end UsbVault.Storage.Multipart.Replicas
