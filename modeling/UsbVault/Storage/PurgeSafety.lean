import UsbVault.Storage.Lifecycle

/-!
# Safety of the purge

A purge deletes the rows that its SELECT has found, by their identifiers, and
their objects when the deletion is committed. A row that it has found stays
expired until then: a soft deletion finds only rows that are not deleted. Only
a restoration in between makes it live again. Where none comes in between, no
step of a purge touches the row or the object of a blob that is live then
(`purge_safe`).
-/

namespace UsbVault.Storage.Lifecycle

open Tables

/-! ## The properties -/

/-- The purge that a call is, and its state. -/
def Pc.purge : Pc → Option Purge
  | .select run => some run
  | .deleteBatch run _ => some run
  | .commitBatch run _ _ => some run
  | .deleteObjects run _ _ => some run
  | .fallback run _ _ => some run
  | _ => none

/-- Every blob that is not deleted, or whose retention has not elapsed, keeps
its row and its object. -/
def Spares (cutoffTime : ℤ) (st st' : Store) : Prop :=
  ∀ b row, st.rows.rows b = some row → ¬row.Expired cutoffTime →
    st'.rows.rows b = some row
      ∧ st'.objects (.blob row.vaultID b) = st.objects (.blob row.vaultID b)

def SparesLive (s : State) : Action → Prop
  | .exec k o => ∀ pc run, s.calls[k]? = some pc → pc.purge = some run →
      Spares run.cutoffTime s.store (lifecycle.step s (.exec k o)).store
  | .world _ => True

/-- The restoration of a blob is executed. -/
def Restores (st : Store) (k : Nat) (vaultID : VaultID) (blobID : BlobID) : Outcome → Prop
  | .executed e _ _ =>
    e.Took ∧ ¬st.rows.Held k blobID ∧ (st.find vaultID blobID (·.deletedAt.isSome)).isSome
  | _ => False

/-- No blob is restored that a purge has selected and is about to delete. -/
def Undisturbed (s : State) : Action → Prop
  | .exec k o =>
    ∀ v b, s.calls[k]? = some (.restore v b) → Restores s.store k v b o →
      ∀ (j : Nat) run blobs, s.calls[j]? = some (.deleteBatch run blobs) →
        b ∉ blobs.map (·.1)
  | .world _ => True

/-! ## Locks and batches -/

/-- The rows that a transaction has deleted and not committed. -/
def Pc.locked : Pc → List BlobID
  | .deleteObject _ b => [b]
  | .commitDelete _ b => [b]
  | .commitBatch _ blobs _ => blobs.map (·.1)
  | _ => []

/-- What is known of the blobs of a batch, as the purge goes on. -/
def Sound (st : Store) (k : Nat) : Pc → Prop
  | .deleteBatch run blobs =>
    ∀ blob ∈ blobs, ∀ row, st.rows.rows blob.1 = some row → row.Expired run.cutoffTime
  | .commitBatch run blobs _ =>
    ∀ blob ∈ blobs, ∀ row, st.rows.rows blob.1 = some row →
      row.Expired run.cutoffTime ∧ st.rows.pending blob.1 = some (k, none)
  | .deleteObjects _ blobs _ => ∀ blob ∈ blobs, st.rows.rows blob.1 = none
  | .fallback _ blobs _ => ∀ blob ∈ blobs, st.rows.rows blob.1 = none
  | _ => True

structure Safe (s : State) : Prop where
  owned : ∀ b (k : Nat) r, s.store.rows.pending b = some (k, r) →
    r = none ∧ ∃ pc, s.calls[k]? = some pc ∧ b ∈ pc.locked
  sound : ∀ (k : Nat) pc, s.calls[k]? = some pc → Sound s.store k pc

variable {s : State} {st : Store} {k : Nat} {pc : Pc} {o : Outcome} {b : BlobID} {r : Store × Pc}

/-! ## The statements -/

theorem rows_deleteRows (ids : List BlobID) : (st.deleteRows k ids).rows.rows = st.rows.rows := by
  have h : ∀ (ids : List BlobID) (t : Table BlobID BlobRow),
      (ids.foldl (fun rows id => rows.write k id none) t).rows = t.rows := by
    intro ids
    induction ids with
    | nil => intro t; rfl
    | cons id ids ih => intro t; rw [List.foldl_cons, ih]; rfl
  exact h ids st.rows

theorem pending_deleteRows (ids : List BlobID) :
    (st.deleteRows k ids).rows.pending b =
      if b ∈ ids then some (k, none) else st.rows.pending b := by
  have h : ∀ (ids : List BlobID) (t : Table BlobID BlobRow),
      (ids.foldl (fun rows id => rows.write k id none) t).pending b =
        if b ∈ ids then some (k, none) else t.pending b := by
    intro ids
    induction ids with
    | nil => intro t; simp
    | cons id ids ih =>
      intro t
      rw [List.foldl_cons, ih]
      by_cases hb : b ∈ ids
      · simp [hb]
      · by_cases heq : b = id
        · simp [heq]
        · simp [hb, heq]
  exact h ids st.rows

theorem mem_candidates {cutoffTime : ℤ} {blob : Listed} (h : blob ∈ st.candidates cutoffTime) :
    ∃ row, st.rows.rows blob.1 = some row ∧ row.Expired cutoffTime ∧ blob.2 = row.vaultID := by
  unfold Store.candidates at h
  obtain ⟨entry, hentry, rfl⟩ := List.mem_map.mp h
  have hmem := (List.mem_insertionSort _).mp (List.mem_of_mem_take hentry)
  obtain ⟨id, hid, hmap⟩ := List.mem_filterMap.mp hmem
  obtain ⟨row, hrow, rfl⟩ := Option.map_eq_some_iff.mp hmap
  obtain ⟨row', hrow', hexpired⟩ := Table.mem_scan.mp hid
  rw [hrow] at hrow'
  obtain rfl := Option.some.inj hrow'
  exact ⟨row, hrow, of_decide_eq_true hexpired, rfl⟩

theorem find_eq_some {v : VaultID} {p : BlobRow → Bool} {row : BlobRow}
    (h : st.find v b p = some row) : st.rows.rows b = some row ∧ p row := by
  obtain ⟨hrow, hp⟩ := Option.filter_eq_some_iff.mp h
  exact ⟨hrow, (of_decide_eq_true hp).2⟩

theorem Restores.row {v : VaultID} (h : Restores st k v b o) : ∃ row, st.rows.rows b = some row := by
  cases o with
  | executed e removed now =>
    obtain ⟨row, hrow⟩ := Option.isSome_iff_exists.mp h.2.2
    exact ⟨row, (find_eq_some hrow).1⟩
  | cancelled => exact absurd h (fun hfalse => hfalse)
  | stopped => exact absurd h (fun hfalse => hfalse)

/-- What a statement does to the table. -/
inductive Move (k : Nat) (st : Store) (pc : Pc) (o : Outcome) (r : Store × Pc) : Prop where
  | keeps (hrows : r.1.rows = st.rows) (hlocked : r.2.locked = pc.locked)
  | puts (b : BlobID) (row row' : BlobRow) (hrow : st.rows.rows b = some row)
      (hfree : ¬st.rows.Held k b) (hrows : r.1.rows = st.rows.put b (some row'))
      (hbefore : pc.locked = []) (hafter : r.2.locked = [])
      (hwhy : row.deletedAt = none ∨ ∃ v, pc = .restore v b ∧ Restores st k v b o)
  | deletes (ids : List BlobID) (hfree : ∀ b ∈ ids, ¬st.rows.Held k b)
      (hrows : r.1.rows = (st.deleteRows k ids).rows) (hbefore : pc.locked = [])
      (hafter : ∀ b ∈ ids, b ∈ r.2.locked)
  | commits (hrows : r.1.rows = st.rows.commit k) (hafter : r.2.locked = [])
  | rollsBack (hrows : r.1.rows = st.rows.rollback k) (hafter : r.2.locked = [])

theorem nextBatch_locked (run : Purge) (n : ℕ) : (nextBatch run n).locked = [] := by
  unfold nextBatch
  split <;> rfl

theorem nextBatch_sound (run : Purge) (n : ℕ) : Sound st k (nextBatch run n) := by
  unfold nextBatch
  split <;> trivial

theorem move_updateRow {v : VaultID} {p : BlobRow → Bool} {set : BlobRow → BlobRow}
    {notFound : String} {e : Execution} {removed : List BlobID} {now : ℤ} (hpc : pc.locked = [])
    (hwhy : ∀ row, p row → row.deletedAt = none
      ∨ pc = .restore v b ∧ ∀ row, p row = row.deletedAt.isSome) :
    Move k st pc (.executed e removed now) (updateRow k st v b p set notFound e pc) := by
  unfold updateRow
  by_cases hheld : st.rows.Held k b
  · rw [if_pos hheld]
    exact .keeps rfl rfl
  · rw [if_neg hheld]
    cases hfind : st.find v b p with
    | none => exact .keeps rfl hpc.symm
    | some row =>
      by_cases htook : e.Took
      · simp only [htook, if_true]
        obtain ⟨hrow, hp⟩ := find_eq_some hfind
        refine .puts b row (set row) hrow hheld rfl hpc rfl ?_
        refine (hwhy row hp).imp_right ?_
        rintro ⟨hrestore, hsame⟩
        refine ⟨v, hrestore, htook, hheld, ?_⟩
        rw [← funext hsame, hfind]
        rfl
      · simp only [htook, if_false]
        exact .keeps rfl hpc.symm

theorem rows_deleteObjects (blobs : List Listed) :
    (blobs.foldl Store.deleteObject st).rows = st.rows := by
  induction blobs generalizing st with
  | nil => rfl
  | cons blob blobs ih => rw [List.foldl_cons, ih]; rfl

/-- **What one statement of a call does** to the table. -/
theorem move_exec (k : Nat) (st : Store) (pc : Pc) (o : Outcome) :
    Move k st pc o (exec k st pc o) := by
  cases o with
  | stopped =>
    cases pc with
    | done err total => exact .keeps rfl rfl
    | _ => exact .rollsBack rfl rfl
  | cancelled =>
    unfold exec
    cases pc <;> exact .keeps rfl rfl
  | executed e removed now =>
    cases pc with
    | softDelete v b userID =>
      exact move_updateRow rfl fun row h => .inl (Option.isNone_iff_eq_none.mp h)
    | restore v b => exact move_updateRow rfl fun row h => .inr ⟨rfl, fun _ => rfl⟩
    | deleteRow v b =>
      simp only [exec]
      by_cases hheld : st.rows.Held k b
      · rw [if_pos hheld]
        exact .keeps rfl rfl
      · rw [if_neg hheld]
        split
        · exact .keeps rfl rfl
        · split
          · refine .deletes [b] ?_ rfl rfl (fun b' hb' => hb')
            intro b' hb'
            rwa [List.mem_singleton.mp hb']
          · exact .keeps rfl rfl
    | deleteObject v b =>
      simp only [exec]
      split
      · split
        · exact .keeps rfl rfl
        · exact .keeps rfl rfl
      · split
        · exact .rollsBack rfl rfl
        · exact .rollsBack rfl rfl
    | commitDelete v b =>
      simp only [exec]
      split
      · exact .commits rfl rfl
      · exact .rollsBack rfl rfl
    | select run =>
      simp only [exec]
      split
      · exact .keeps rfl rfl
      · split
        · exact .keeps rfl (nextBatch_locked run 0)
        · exact .keeps rfl rfl
    | deleteBatch run blobs =>
      simp only [exec]
      by_cases hheld : ∃ blob ∈ blobs, st.rows.Held k blob.1
      · rw [if_pos hheld]
        exact .keeps rfl rfl
      · rw [if_neg hheld]
        split
        · exact .rollsBack rfl rfl
        · refine .deletes _ ?_ rfl rfl ?_
          · intro b hb hheld'
            obtain ⟨blob, hblob, rfl⟩ := List.mem_map.mp (List.mem_filter.mp hb).1
            exact hheld ⟨blob, hblob, hheld'⟩
          · intro b hb
            exact (List.mem_filter.mp hb).1
    | commitBatch run blobs n =>
      simp only [exec]
      split
      · exact .commits rfl rfl
      · split
        · exact .commits rfl rfl
        · exact .rollsBack rfl rfl
    | deleteObjects run blobs n =>
      simp only [exec]
      split
      · exact .keeps (rows_deleteObjects _) (nextBatch_locked run n)
      · exact .keeps (rows_deleteObjects _) rfl
    | fallback run blobs n =>
      cases blobs with
      | nil => exact .keeps rfl (nextBatch_locked run n)
      | cons blob blobs =>
        simp only [exec]
        split
        · exact .keeps rfl rfl
        · exact .keeps rfl rfl
    | done err total => exact .keeps rfl rfl

/-! ## What a statement leaves to the others -/

section

variable {j : Nat} {q : Pc}

theorem Move.pending_other (h : Move k st pc o r) (hj : j ≠ k)
    (hb : st.rows.pending b = some (j, none)) : r.1.rows.pending b = some (j, none) := by
  have hheld : st.rows.Held k b := ⟨_, hb, hj⟩
  cases h with
  | keeps hrows _ => rw [hrows, hb]
  | puts b' row row' hrow hfree hrows _ _ _ => rw [hrows, Table.pending_put, hb]
  | deletes ids hfree hrows _ _ =>
    rw [hrows, pending_deleteRows, if_neg (fun hmem => hfree b hmem hheld), hb]
  | commits hrows _ =>
    rw [hrows]
    exact Table.pending_commit.mpr ⟨hb, hj⟩
  | rollsBack hrows _ =>
    rw [hrows]
    exact Table.pending_rollback.mpr ⟨hb, hj⟩

theorem Move.row_before (hs : Safe ⟨st, s.calls⟩) (h : Move k st pc o r) {row : BlobRow}
    (hb : r.1.rows.rows b = some row) :
    st.rows.rows b = some row
      ∨ ∃ old, st.rows.rows b = some old ∧ ¬st.rows.Held k b
        ∧ (old.deletedAt = none ∨ ∃ v, pc = .restore v b ∧ Restores st k v b o) := by
  cases h with
  | keeps hrows _ => rw [hrows] at hb; exact .inl hb
  | puts b' old new hrow hfree hrows _ _ hwhy =>
    rw [hrows] at hb
    by_cases heq : b = b'
    · subst heq
      exact .inr ⟨old, hrow, hfree, hwhy⟩
    · rw [Table.rows_put_ne heq] at hb
      exact .inl hb
  | deletes ids _ hrows _ _ => rw [hrows, rows_deleteRows] at hb; exact .inl hb
  | rollsBack hrows _ => rw [hrows, Table.rows_rollback] at hb; exact .inl hb
  | commits hrows _ =>
    rw [hrows, Table.rows_commit] at hb
    left
    by_cases hown : ∃ r', st.rows.pending b = some (k, r')
    · obtain ⟨r', hr'⟩ := hown
      rw [Table.view_of_own hr', (hs.owned b k r' hr').1] at hb
      cases hb
    · rwa [Table.view_of_other fun r' hr' => hown ⟨r', hr'⟩] at hb

theorem Move.gone (hs : Safe ⟨st, s.calls⟩) (h : Move k st pc o r)
    (hb : st.rows.rows b = none) : r.1.rows.rows b = none := by
  by_contra hne
  obtain ⟨row, hrow⟩ := Option.ne_none_iff_exists'.mp hne
  rcases h.row_before hs hrow with hsame | ⟨old, hold, -⟩
  · rw [hb] at hsame
    cases hsame
  · rw [hb] at hold
    cases hold

/-- **The batches of the other calls** are as they were, where no restoration
disturbs them. -/
theorem Move.sound_other (hs : Safe ⟨st, s.calls⟩) (h : Move k st pc o r) (hj : j ≠ k)
    (hq : s.calls[j]? = some q)
    (hok : ∀ v b, pc = .restore v b → Restores st k v b o →
      ∀ run blobs, q = .deleteBatch run blobs → b ∉ blobs.map (·.1)) : Sound r.1 j q := by
  have hsound := hs.sound j q hq
  -- a row of a batch is expired, so only a restoration updates it
  have hstays : ∀ (blob : Listed) (cutoffTime : ℤ),
      (∀ row, st.rows.rows blob.1 = some row → row.Expired cutoffTime) →
      (∀ v, pc = .restore v blob.1 → Restores st k v blob.1 o → st.rows.Held k blob.1) →
      ∀ row, r.1.rows.rows blob.1 = some row → st.rows.rows blob.1 = some row := by
    intro blob cutoffTime hexpired hrestore row hrow
    rcases h.row_before hs hrow with hsame | ⟨old, hold, hfree, hnone | ⟨v, hpc, hres⟩⟩
    · exact hsame
    · obtain ⟨t, ht, -⟩ := hexpired old hold
      rw [hnone] at ht
      cases ht
    · exact absurd (hrestore v hpc hres) hfree
  cases q with
  | deleteBatch run blobs =>
    intro blob hblob row hrow
    refine hsound blob hblob row (hstays blob run.cutoffTime (hsound blob hblob) ?_ row hrow)
    intro v hpc hres
    exact absurd (List.mem_map_of_mem hblob) (hok v blob.1 hpc hres run blobs rfl)
  | commitBatch run blobs n =>
    intro blob hblob row hrow
    have hbefore : st.rows.rows blob.1 = some row := by
      refine hstays blob run.cutoffTime (fun row' hrow' => (hsound blob hblob row' hrow').1) ?_
        row hrow
      intro v hpc hres
      obtain ⟨old, hold⟩ := hres.row
      exact ⟨_, (hsound blob hblob old hold).2, hj⟩
    obtain ⟨hexpired, hpending⟩ := hsound blob hblob row hbefore
    exact ⟨hexpired, h.pending_other hj hpending⟩
  | deleteObjects run blobs n => exact fun blob hblob => h.gone hs (hsound blob hblob)
  | fallback run blobs n => exact fun blob hblob => h.gone hs (hsound blob hblob)
  | _ => trivial

end

/-! ## What a call does to its own batch -/

theorem deleteObjects_other {blobs : List Listed} {v : VaultID}
    (h : ∀ blob ∈ blobs, blob.1 ≠ b) :
    (blobs.foldl Store.deleteObject st).objects (.blob v b) = st.objects (.blob v b) := by
  induction blobs generalizing st with
  | nil => rfl
  | cons blob blobs ih =>
    rw [List.foldl_cons, ih fun blob' hblob' => h blob' (List.mem_cons_of_mem _ hblob')]
    refine Bucket.deleteObject_ne _ ?_
    intro heq
    injection heq with _ heq
    exact h blob List.mem_cons_self heq.symm

theorem Spares.refl (cutoffTime : ℤ) (st : Store) : Spares cutoffTime st st :=
  fun _ _ hrow _ => ⟨hrow, rfl⟩

theorem spares_of_rows {cutoffTime : ℤ} {st' : Store} (hrows : st'.rows.rows = st.rows.rows)
    (hobjects : st'.objects = st.objects) : Spares cutoffTime st st' := by
  intro b row hrow _
  rw [hrows, hobjects]
  exact ⟨hrow, rfl⟩

theorem spares_deleteObjects {cutoffTime : ℤ} {blobs : List Listed}
    (h : ∀ blob ∈ blobs, st.rows.rows blob.1 = none) :
    Spares cutoffTime st (blobs.foldl Store.deleteObject st) := by
  intro b row hrow _
  rw [rows_deleteObjects]
  refine ⟨hrow, deleteObjects_other ?_⟩
  intro blob hblob heq
  rw [← heq, h blob hblob] at hrow
  cases hrow

theorem commit_gone {run : Purge} {blobs : List Listed} {n : ℕ}
    (hs : Safe ⟨st, s.calls⟩) (hsound : Sound st k (.commitBatch run blobs n)) {blob : Listed}
    (hblob : blob ∈ blobs) : (st.commit k).rows.rows blob.1 = none := by
  show (st.rows.commit k).rows blob.1 = none
  rw [Table.rows_commit]
  by_cases hown : ∃ r', st.rows.pending blob.1 = some (k, r')
  · obtain ⟨r', hr'⟩ := hown
    rw [Table.view_of_own hr', (hs.owned blob.1 k r' hr').1]
  · rw [Table.view_of_other fun r' hr' => hown ⟨r', hr'⟩]
    by_contra hne
    obtain ⟨row, hrow⟩ := Option.ne_none_iff_exists'.mp hne
    exact hown ⟨none, (hsound blob hblob row hrow).2⟩

/-- **The commit of a batch** takes expired rows only. -/
theorem spares_commit {run : Purge} {blobs : List Listed} {n : ℕ} (hs : Safe s)
    (hk : s.calls[k]? = some (.commitBatch run blobs n)) :
    Spares run.cutoffTime s.store (s.store.commit k) := by
  intro b row hrow hlive
  refine ⟨?_, rfl⟩
  show (s.store.rows.commit k).rows b = some row
  rw [Table.rows_commit, Table.view_of_other, hrow]
  intro r' hr'
  obtain ⟨-, pc, hpc, hlocked⟩ := hs.owned b k r' hr'
  rw [hk] at hpc
  obtain rfl := Option.some.inj hpc
  obtain ⟨blob, hblob, rfl⟩ := List.mem_map.mp hlocked
  exact hlive (hs.sound k _ hk blob hblob row hrow).1

theorem updateRow_sound {v : VaultID} {p : BlobRow → Bool} {set : BlobRow → BlobRow}
    {notFound : String} {e : Execution} (hpc : ∀ st, Sound st k pc) :
    Sound (updateRow k st v b p set notFound e pc).1 k
      (updateRow k st v b p set notFound e pc).2 := by
  unfold updateRow
  split
  · exact hpc st
  · split
    · split <;> trivial
    · trivial

/-- **A purge goes on** with a batch of which it knows what it needs. -/
theorem sound_self (hs : Safe ⟨st, s.calls⟩) (hk : s.calls[k]? = some pc) (o : Outcome) :
    Sound (exec k st pc o).1 k (exec k st pc o).2 := by
  have hsound := hs.sound k pc hk
  cases o with
  | stopped => cases pc <;> trivial
  | cancelled => cases pc <;> exact hsound
  | executed e removed now =>
    cases pc with
    | softDelete v b userID => exact updateRow_sound fun _ => trivial
    | restore v b => exact updateRow_sound fun _ => trivial
    | deleteRow v b =>
      simp only [exec]
      split
      · trivial
      · split
        · trivial
        · split <;> trivial
    | deleteObject v b =>
      simp only [exec]
      split <;> trivial
    | commitDelete v b =>
      simp only [exec]
      split <;> trivial
    | select run =>
      simp only [exec]
      split
      · trivial
      · split
        · exact nextBatch_sound run 0
        · intro blob hblob row hrow
          obtain ⟨row', hrow', hexpired, -⟩ := mem_candidates hblob
          rw [hrow] at hrow'
          obtain rfl := Option.some.inj hrow'
          exact hexpired
    | deleteBatch run blobs =>
      simp only [exec]
      split
      · exact hsound
      · split
        · trivial
        · intro blob hblob row hrow
          rw [rows_deleteRows] at hrow
          refine ⟨hsound blob hblob row hrow, ?_⟩
          rw [pending_deleteRows, if_pos]
          exact List.mem_filter.mpr ⟨List.mem_map_of_mem hblob, by rw [hrow]; rfl⟩
    | commitBatch run blobs n =>
      simp only [exec]
      split
      · exact fun blob hblob => commit_gone hs hsound hblob
      · trivial
    | deleteObjects run blobs n =>
      simp only [exec]
      split
      · exact nextBatch_sound run n
      · intro blob hblob
        show (List.foldl Store.deleteObject st _).rows.rows blob.1 = none
        rw [rows_deleteObjects]
        exact hsound blob hblob
    | fallback run blobs n =>
      cases blobs with
      | nil => exact nextBatch_sound run n
      | cons blob blobs =>
        simp only [exec]
        intro blob' hblob'
        have hnone := hsound blob' (List.mem_cons_of_mem _ hblob')
        split <;> exact hnone
    | done err total => trivial

/-- **A step of a purge** spares the live blobs. -/
theorem spares_exec (hs : Safe s) (hk : s.calls[k]? = some pc) {run : Purge}
    (hpurge : pc.purge = some run) (o : Outcome) :
    Spares run.cutoffTime s.store (exec k s.store pc o).1 := by
  have hsound := hs.sound k pc hk
  cases o with
  | stopped => cases pc <;> exact spares_of_rows rfl rfl
  | cancelled => cases pc <;> exact spares_of_rows rfl rfl
  | executed e removed now =>
    cases pc with
    | select run =>
      simp only [exec]
      split
      · exact .refl _ _
      · split <;> exact .refl _ _
    | deleteBatch run blobs =>
      simp only [exec]
      split
      · exact .refl _ _
      · split
        · exact spares_of_rows rfl rfl
        · exact spares_of_rows (rows_deleteRows _) rfl
    | commitBatch run' blobs n =>
      obtain rfl := Option.some.inj hpurge
      simp only [exec]
      split
      · exact spares_commit hs hk
      · split
        · exact spares_commit hs hk
        · exact spares_of_rows rfl rfl
    | deleteObjects run blobs n =>
      simp only [exec]
      split
      · exact spares_deleteObjects fun blob hblob => hsound blob (List.mem_filter.mp hblob).1
      · exact spares_deleteObjects fun blob hblob => hsound blob (List.mem_filter.mp hblob).1
    | fallback run blobs n =>
      cases blobs with
      | nil => exact .refl _ _
      | cons blob blobs =>
        simp only [exec]
        split
        · show Spares _ s.store ([blob].foldl Store.deleteObject s.store)
          refine spares_deleteObjects ?_
          intro blob' hblob'
          rw [List.mem_singleton.mp hblob']
          exact hsound blob List.mem_cons_self
        · exact .refl _ _
    | _ => cases hpurge

/-! ## Runs -/

theorem Safe.start (blobs : List (BlobID × BlobRow)) (objects : Bucket (List UInt8)) :
    Safe (start blobs objects) := by
  have hfree : ∀ (blobs : List (BlobID × BlobRow)) (t : Table BlobID BlobRow),
      (blobs.foldl (fun rows blob => rows.put blob.1 (some blob.2)) t).pending = t.pending := by
    intro blobs
    induction blobs with
    | nil => intro t; rfl
    | cons blob blobs ih => intro t; rw [List.foldl_cons, ih]; rfl
  constructor
  · intro b k r hb
    simp only [Lifecycle.start, hfree, Table.empty] at hb
    cases hb
  · intro k pc hk
    simp [Lifecycle.start] at hk

theorem Safe.world (h : Safe s) (e : Event) : Safe (lifecycle.step s (.world e)) := by
  have hrows : (lifecycle.step s (.world e)).store.rows = s.store.rows := by
    cases e <;> rfl
  constructor
  · intro b k r hb
    rw [hrows] at hb
    obtain ⟨hr, pc, hk, hlocked⟩ := h.owned b k r hb
    exact ⟨hr, pc, Calls.Service.step_world_of hk e, hlocked⟩
  · intro k pc hk
    rcases Calls.Service.of_step_world hk with hbefore | ⟨-, hnew⟩
    · have hsound := h.sound k pc hbefore
      cases pc <;> first | trivial | (simpa only [Sound, hrows] using hsound)
    · cases e with
      | softDeleteBlob v b userID => cases hnew; trivial
      | restoreBlob v b => cases hnew; trivial
      | permanentlyDeleteBlob v b => cases hnew; trivial
      | putObject key content => cases hnew
      | cleanupExpiredBlobs now days =>
        obtain rfl := Option.some.inj hnew
        split <;> trivial

theorem owned_exec (h : Safe s) (hk : s.calls[k]? = some pc) (o : Outcome) {b : BlobID} {j : Nat}
    {r : Option BlobRow} (hb : (exec k s.store pc o).1.rows.pending b = some (j, r)) :
    r = none ∧ (j ≠ k ∧ s.store.rows.pending b = some (j, r)
      ∨ j = k ∧ b ∈ (exec k s.store pc o).2.locked) := by
  -- a call that has no locks has written nothing
  have hnone : pc.locked = [] → s.store.rows.pending b = some (j, r) → j ≠ k := by
    rintro hlocked hb' rfl
    obtain ⟨-, pc', hpc', hmem⟩ := h.owned b j r hb'
    rw [hk] at hpc'
    obtain rfl := Option.some.inj hpc'
    rw [hlocked] at hmem
    cases hmem
  cases move_exec k s.store pc o with
  | keeps hrows hlocked =>
    rw [hrows] at hb
    obtain ⟨hr, pc', hpc', hmem⟩ := h.owned b j r hb
    refine ⟨hr, ?_⟩
    by_cases hjk : j = k
    · subst hjk
      rw [hk] at hpc'
      obtain rfl := Option.some.inj hpc'
      exact .inr ⟨rfl, by rwa [hlocked]⟩
    · exact .inl ⟨hjk, hb⟩
  | puts b' row row' _ _ hrows hbefore _ _ =>
    rw [hrows, Table.pending_put] at hb
    exact ⟨(h.owned b j r hb).1, .inl ⟨hnone hbefore hb, hb⟩⟩
  | deletes ids _ hrows hbefore hafter =>
    rw [hrows, pending_deleteRows] at hb
    split at hb
    · next hmem =>
      cases hb
      exact ⟨rfl, .inr ⟨rfl, hafter b hmem⟩⟩
    · exact ⟨(h.owned b j r hb).1, .inl ⟨hnone hbefore hb, hb⟩⟩
  | commits hrows _ =>
    rw [hrows] at hb
    obtain ⟨hb, hjk⟩ := Table.pending_commit.mp hb
    exact ⟨(h.owned b j r hb).1, .inl ⟨hjk, hb⟩⟩
  | rollsBack hrows _ =>
    rw [hrows] at hb
    obtain ⟨hb, hjk⟩ := Table.pending_rollback.mp hb
    exact ⟨(h.owned b j r hb).1, .inl ⟨hjk, hb⟩⟩

theorem Safe.exec (h : Safe s) (hk : s.calls[k]? = some pc) (o : Outcome)
    (hok : Undisturbed s (.exec k o)) : Safe (lifecycle.step s (.exec k o)) := by
  have hstore : (lifecycle.step s (.exec k o)).store = (Lifecycle.exec k s.store pc o).1 :=
    Calls.Service.step_exec_store hk o
  have hself : (lifecycle.step s (.exec k o)).calls[k]?
      = some (Lifecycle.exec k s.store pc o).2 := Calls.Service.step_exec_self hk o
  constructor
  · intro b j r hb
    rw [hstore] at hb
    obtain ⟨hr, ⟨hjk, hb'⟩ | ⟨rfl, hmem⟩⟩ := owned_exec h hk o hb
    · obtain ⟨-, pc', hpc', hmem⟩ := h.owned b j r hb'
      exact ⟨hr, pc', by rw [Calls.Service.step_exec_ne hjk, hpc'], hmem⟩
    · exact ⟨hr, _, hself, hmem⟩
  · intro j q hj
    rw [hstore]
    by_cases hjk : j = k
    · subst hjk
      rw [hself] at hj
      obtain rfl := Option.some.inj hj
      exact sound_self h hk o
    · rw [Calls.Service.step_exec_ne hjk] at hj
      refine (move_exec k s.store pc o).sound_other h hjk hj ?_
      intro v b hpc hres run blobs hq
      rw [hpc] at hk
      rw [hq] at hj
      exact hok v b hk hres j run blobs hj

/-- **A purge never destroys a live blob** in the runs in which no blob is
restored between the SELECT and the DELETE of a batch that lists it. -/
theorem purge_safe (blobs : List (BlobID × BlobRow)) (objects : Bucket (List UInt8))
    (actions : List Action)
    (hrun : Run.Each lifecycle.step Undisturbed (start blobs objects) actions) :
    Run.Each lifecycle.step SparesLive (start blobs objects) actions := by
  refine Run.Each.imp (fun s a (hs : Safe s) _ => ?_)
    (Calls.Service.keeps ?_ ?_) (Safe.start blobs objects) hrun
  · cases a with
    | world e => trivial
    | exec k o =>
      intro pc run hk hpurge
      rw [Calls.Service.step_exec hk]
      exact spares_exec hs hk hpurge o
  · intro s e hs _
    exact hs.world e
  · intro s k pc o hs hok hk
    exact hs.exec hk o hok

/-! ## A blob restored too late -/

/-- Deleted a hundred days ago. -/
def oldBlob : BlobRow where
  vaultID := 7
  deletedAt := some 0
  deletedBy := some 1

def stored : Bucket (List UInt8) := Bucket.putObject (fun _ => none) (.blob 7 1) [42]

def done : Outcome := .executed .done [1] (100 * dayNanoseconds)

/-- The purge selects the blob; the user restores it; the purge deletes it. -/
def tooLate : List Action :=
  [.world (.cleanupExpiredBlobs (100 * dayNanoseconds) 30), .exec 0 done,
    .world (.restoreBlob 7 1), .exec 1 done, .exec 0 done, .exec 0 done]

def liveBlob : BlobRow := { oldBlob with deletedAt := none, deletedBy := none }

/-- Deleted a day ago. -/
def recentBlob : BlobRow := { oldBlob with deletedAt := some (99 * dayNanoseconds) }

/-- A purge of one of three blobs. Another is restored between its SELECT and
its DELETE, and the third is live all along. -/
theorem purge_safe_sample :
    Run.Each lifecycle.step SparesLive (start [(1, oldBlob), (2, liveBlob), (3, recentBlob)] stored)
      [.world (.cleanupExpiredBlobs (100 * dayNanoseconds) 30), .exec 0 done,
        .world (.restoreBlob 7 3), .exec 1 done, .exec 0 done, .exec 0 done, .exec 0 done] := by
  refine purge_safe _ _ _ ?_
  refine ⟨trivial, ?_, trivial, ?_, ?_, ?_, ?_, trivial⟩
  · rintro v b ⟨⟩
  · rintro v b ⟨⟩ - j run blobs hj
    match j, hj with
    | 0, hj => cases hj; decide +kernel
    | 1, hj => cases hj
  · rintro v b ⟨⟩
  · rintro v b ⟨⟩
  · rintro v b ⟨⟩

/-- The restored blob loses its row, and its object after that. -/
theorem restored_destroyed :
    ¬Run.Each lifecycle.step SparesLive (start [(1, oldBlob)] stored) tooLate := by
  intro h
  obtain ⟨-, -, -, -, -, hcommit, -⟩ := h
  have hkept := hcommit _ _ rfl rfl 1 liveBlob rfl
    (by rintro ⟨t, ht, -⟩; cases ht)
  exact absurd hkept.1 (by decide)

end UsbVault.Storage.Lifecycle
