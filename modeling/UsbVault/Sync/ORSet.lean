import UsbVault.Lib.Bytes
import UsbVault.Lib.Run
import Mathlib.Data.List.AList
import Mathlib.Logic.Function.Basic

/-!
# The OR-Set

The set of multi-device sync that calls itself an observed-remove set, and
its replicas. What a replica has merged is recorded beside it as a history
that no operation reads: its additions, and its removals with the tags they
observed.

An element whose addition no removal has observed is contained at every
replica that has merged the addition (`contains_of_live`). The converse
holds along the runs whose merges bring no removed tag back
(`contains_iff_live`): the set keeps no trace of a removal, so a merge takes
the removed tags of the other side for new ones.
-/

namespace UsbVault.Sync

open Wire

/-- A Go map: an association list with distinct keys. -/
abbrev GoMap (κ ν : Type) := AList fun _ : κ => ν

/-- `ORSet`: element -> {unique_tag -> present}. -/
structure ORSet where
  elements : GoMap Bytes (GoMap Bytes Bool)

/-- `NewORSet`. -/
def newORSet : ORSet := ⟨∅⟩

namespace ORSet

/-- `Add`: the element's tags are made when it has none. -/
def add (s : ORSet) (element tag : Bytes) : ORSet :=
  let tags := (s.elements.lookup element).getD ∅
  ⟨s.elements.insert element (tags.insert tag true)⟩

/-- `Remove`: removes an element (all observed tags). -/
def remove (s : ORSet) (element : Bytes) : ORSet := ⟨s.elements.erase element⟩

/-- `Contains`. -/
def contains (s : ORSet) (element : Bytes) : Bool :=
  match s.elements.lookup element with
  | none => false
  | some tags => tags.keys.length > 0

/-- One of the two loops of `Merge`: all tags of `s` are added. -/
def addAll (result s : ORSet) : ORSet :=
  s.elements.foldl
    (fun result element tags => tags.foldl (fun result tag _ => result.add element tag) result)
    result

/-- `Merge`: union of all unique tags for each element. -/
def merge (s other : ORSet) : ORSet := (newORSet.addAll s).addAll other

/-- `List`: all present elements. -/
def list (s : ORSet) : List Bytes :=
  (s.elements.entries.filter fun e => e.2.keys.length > 0).map Sigma.fst

/-- The tags a removal of the element takes away. -/
def observed (s : ORSet) (element : Bytes) : List Bytes :=
  ((s.elements.lookup element).map AList.keys).getD []

/-- The set holds the tag for the element. -/
def Tagged (s : ORSet) (element tag : Bytes) : Prop :=
  ∃ tags, s.elements.lookup element = some tags ∧ tag ∈ tags

/-! ## The tags after each operation -/

variable {s o : ORSet} {e e' t t' : Bytes}

theorem tagged_new : ¬ newORSet.Tagged e t := by
  rintro ⟨tags, htags, -⟩
  cases htags

theorem tagged_add : (s.add e t).Tagged e' t' ↔ e' = e ∧ t' = t ∨ s.Tagged e' t' := by
  simp only [Tagged, add]
  by_cases he : e' = e
  · subst he
    simp only [AList.lookup_insert, Option.some.injEq, exists_eq_left', AList.mem_insert, true_and]
    cases s.elements.lookup e' with
    | none => simp
    | some tags => simp
  · simp [AList.lookup_insert_ne he, he]

theorem tagged_remove : (s.remove e).Tagged e' t' ↔ e' ≠ e ∧ s.Tagged e' t' := by
  simp only [Tagged, remove]
  by_cases he : e' = e
  · subst he
    simp
  · simp [AList.lookup_erase_ne he, he]

private theorem tagged_addTags {tags : List (Sigma fun _ : Bytes => Bool)} :
    (tags.foldl (fun result a => result.add e a.1) s).Tagged e' t' ↔
      s.Tagged e' t' ∨ e' = e ∧ t' ∈ tags.keys := by
  induction tags generalizing s with
  | nil => simp
  | cons a tags ih =>
    rw [List.foldl_cons, ih, tagged_add, List.keys_cons, List.mem_cons]
    tauto

private theorem tagged_addEntries {entries : List (Sigma fun _ : Bytes => GoMap Bytes Bool)} :
    (entries.foldl (fun result a => a.2.foldl (fun result tag _ => result.add a.1 tag) result)
        s).Tagged e' t' ↔
      s.Tagged e' t' ∨ ∃ tags, ⟨e', tags⟩ ∈ entries ∧ t' ∈ tags := by
  induction entries generalizing s with
  | nil => simp
  | cons a entries ih =>
    obtain ⟨element, tags⟩ := a
    rw [List.foldl_cons, ih, AList.foldl, tagged_addTags]
    simp only [List.mem_cons, Sigma.mk.injEq, heq_eq_eq, or_and_right, exists_or, ← or_assoc]
    refine or_congr_left (or_congr_right ?_)
    constructor
    · rintro ⟨he, ht⟩
      exact ⟨tags, ⟨he, rfl⟩, ht⟩
    · rintro ⟨_, ⟨he, rfl⟩, ht⟩
      exact ⟨he, ht⟩

theorem tagged_addAll : (s.addAll o).Tagged e t ↔ s.Tagged e t ∨ o.Tagged e t := by
  rw [addAll, AList.foldl, tagged_addEntries]
  simp only [Tagged, ← AList.mem_lookup_iff, Option.mem_def]

theorem tagged_merge : (s.merge o).Tagged e t ↔ s.Tagged e t ∨ o.Tagged e t := by
  rw [merge, tagged_addAll, tagged_addAll]
  exact or_congr_left (or_iff_right tagged_new)

theorem mem_observed : t ∈ s.observed e ↔ s.Tagged e t := by
  rw [observed, Tagged]
  cases s.elements.lookup e with
  | none => simp
  | some tags => simp [AList.mem_keys]

theorem contains_iff : s.contains e = true ↔ ∃ t, s.Tagged e t := by
  rw [contains]
  simp only [Tagged]
  cases s.elements.lookup e with
  | none => simp
  | some tags =>
    simp only [gt_iff_lt, decide_eq_true_eq, List.length_pos_iff_exists_mem, Option.some.injEq,
      exists_eq_left', AList.mem_keys]

theorem mem_list : e ∈ s.list ↔ s.contains e = true := by
  rw [contains_iff, list, List.mem_map]
  simp only [Tagged, List.mem_filter, gt_iff_lt, decide_eq_true_eq,
    List.length_pos_iff_exists_mem, ← AList.mem_keys]
  constructor
  · rintro ⟨⟨_, tags⟩, ⟨hmem, t, ht⟩, rfl⟩
    exact ⟨t, tags, AList.mem_lookup_iff.mpr hmem, ht⟩
  · rintro ⟨t, tags, hlookup, ht⟩
    exact ⟨⟨e, tags⟩, ⟨AList.mem_lookup_iff.mp hlookup, t, ht⟩, rfl⟩

/-! ## Histories -/

/-- What a replica has merged. A removal carries the tags it observed. -/
inductive Event
  | add (element tag : Bytes)
  | remove (element : Bytes) (observed : List Bytes)
  deriving DecidableEq, Repr

/-- The history has a removal that observed the tag. -/
def Removed (h : List Event) (e t : Bytes) : Prop :=
  ∃ tags, Event.remove e tags ∈ h ∧ t ∈ tags

/-- The history has an addition of the element under the tag, and no
removal that observed the tag. -/
def Live (h : List Event) (e t : Bytes) : Prop :=
  Event.add e t ∈ h ∧ ¬ Removed h e t

section Histories

variable {h h' : List Event} {e e' t t' : Bytes} {tags : List Bytes}

theorem removed_add : Removed (.add e t :: h) e' t' ↔ Removed h e' t' := by
  simp [Removed]

theorem removed_remove :
    Removed (.remove e tags :: h) e' t' ↔ e' = e ∧ t' ∈ tags ∨ Removed h e' t' := by
  simp only [Removed, List.mem_cons, Event.remove.injEq, or_and_right, exists_or]
  refine or_congr_left ?_
  constructor
  · rintro ⟨_, ⟨he, rfl⟩, ht⟩
    exact ⟨he, ht⟩
  · rintro ⟨he, ht⟩
    exact ⟨tags, ⟨he, rfl⟩, ht⟩

theorem removed_append : Removed (h ++ h') e t ↔ Removed h e t ∨ Removed h' e t := by
  simp only [Removed, List.mem_append, or_and_right, exists_or]

end Histories

/-! ## Replicas -/

structure Replica where
  set : ORSet
  history : List Event

/-- Replicas, however many. A message on its way is a replica that has
merged its sender and is merged later. -/
abbrev Replicas (ι : Type) := ι → Replica

def noReplica : Replica := ⟨newORSet, []⟩

inductive Op (ι : Type)
  | add (i : ι) (element tag : Bytes)
  | remove (i : ι) (element : Bytes)
  | merge (i j : ι)

variable {ι : Type} [DecidableEq ι]

def Replica.add (r : Replica) (element tag : Bytes) : Replica :=
  ⟨r.set.add element tag, .add element tag :: r.history⟩

def Replica.remove (r : Replica) (element : Bytes) : Replica :=
  ⟨r.set.remove element, .remove element (r.set.observed element) :: r.history⟩

def Replica.merge (r other : Replica) : Replica :=
  ⟨r.set.merge other.set, r.history ++ other.history⟩

def perform (c : Replicas ι) : Op ι → Replicas ι
  | .add i element tag => Function.update c i ((c i).add element tag)
  | .remove i element => Function.update c i ((c i).remove element)
  | .merge i j => Function.update c i ((c i).merge (c j))

/-- The replicas after a run, all of them empty before it. -/
def run (ops : List (Op ι)) : Replicas ι := ops.foldl perform fun _ => noReplica

/-- Each addition comes with a tag no replica has used. -/
def Fresh (c : Replicas ι) : Op ι → Prop
  | .add _ _ tag => ∀ i element, Event.add element tag ∉ (c i).history
  | .remove _ _ => True
  | .merge _ _ => True

/-- Neither side of a merge holds a tag that a removal known to the other
side has observed. -/
def BringsBackNothing (c : Replicas ι) : Op ι → Prop
  | .add _ _ _ => True
  | .remove _ _ => True
  | .merge i j => ∀ e t,
      ((c i).set.Tagged e t → ¬ Removed (c j).history e t) ∧
      ((c j).set.Tagged e t → ¬ Removed (c i).history e t)

/-! ## What every run keeps -/

/-- The tags of the set and the tags observed by removals come from
additions, and no live tag is missing from the set. -/
structure Replica.Sound (r : Replica) : Prop where
  tagged : ∀ {e t}, r.set.Tagged e t → Event.add e t ∈ r.history
  removed : ∀ {e t}, Removed r.history e t → Event.add e t ∈ r.history
  live : ∀ {e t}, Live r.history e t → r.set.Tagged e t

theorem noReplica_sound : noReplica.Sound where
  tagged h := absurd h ORSet.tagged_new
  removed := by rintro e t ⟨_, hmem, -⟩; cases hmem
  live h := by cases h.1

section Replica

variable {r other : Replica} {e e' t t' : Bytes}

theorem Replica.Sound.add (h : r.Sound) : (r.add e t).Sound where
  tagged htag := by
    rcases ORSet.tagged_add.mp htag with ⟨rfl, rfl⟩ | hold
    · exact List.mem_cons_self
    · exact List.mem_cons_of_mem _ (h.tagged hold)
  removed hrem := List.mem_cons_of_mem _ (h.removed (removed_add.mp hrem))
  live hlive := by
    obtain ⟨hadd, hrem⟩ := hlive
    refine ORSet.tagged_add.mpr ?_
    rcases List.mem_cons.mp hadd with heq | hold
    · cases heq
      exact .inl ⟨rfl, rfl⟩
    · exact .inr (h.live ⟨hold, fun hr => hrem (removed_add.mpr hr)⟩)

theorem Replica.Sound.remove (h : r.Sound) : (r.remove e).Sound where
  tagged htag := List.mem_cons_of_mem _ (h.tagged (ORSet.tagged_remove.mp htag).2)
  removed hrem := by
    rcases removed_remove.mp hrem with ⟨rfl, ht⟩ | hold
    · exact List.mem_cons_of_mem _ (h.tagged (ORSet.mem_observed.mp ht))
    · exact List.mem_cons_of_mem _ (h.removed hold)
  live := by
    rintro e' t' ⟨hadd, hrem⟩
    rcases List.mem_cons.mp hadd with heq | hold
    · cases heq
    have htag : r.set.Tagged e' t' :=
      h.live ⟨hold, fun hr => hrem (removed_remove.mpr (.inr hr))⟩
    refine ORSet.tagged_remove.mpr ⟨fun he => hrem ?_, htag⟩
    -- the removal has observed every tag of its element
    subst he
    exact removed_remove.mpr (.inl ⟨rfl, ORSet.mem_observed.mpr htag⟩)

theorem Replica.Sound.merge (h : r.Sound) (ho : other.Sound) : (r.merge other).Sound where
  tagged htag := by
    rw [Replica.merge, List.mem_append]
    exact (ORSet.tagged_merge.mp htag).imp h.tagged ho.tagged
  removed hrem := by
    rw [Replica.merge, List.mem_append]
    exact (removed_append.mp hrem).imp h.removed ho.removed
  live := by
    rintro e t ⟨hadd, hrem⟩
    rw [Replica.merge, removed_append, not_or] at hrem
    refine ORSet.tagged_merge.mpr ?_
    exact (List.mem_append.mp hadd).imp (fun ha => h.live ⟨ha, hrem.1⟩) fun ha => ho.live ⟨ha, hrem.2⟩

end Replica

def Sound (c : Replicas ι) : Prop := ∀ i, (c i).Sound

theorem perform_sound (c : Replicas ι) (o : Op ι) (h : Sound c) : Sound (perform c o) := by
  intro k
  cases o with
  | add i e t =>
    rw [perform, Function.update_apply]
    split
    · exact (h i).add
    · exact h k
  | remove i e =>
    rw [perform, Function.update_apply]
    split
    · exact (h i).remove
    · exact h k
  | merge i j =>
    rw [perform, Function.update_apply]
    split
    · exact (h i).merge (h j)
    · exact h k

theorem run_sound (ops : List (Op ι)) : Sound (run ops) :=
  Run.foldl_preserves (A := fun _ => True) (fun c o _ h => perform_sound c o h) ops _
    (fun _ _ => True.intro) fun _ => noReplica_sound

/-- **No addition is lost**: an element with a live tag in what a replica has
merged is contained there, in every run. -/
theorem contains_of_live (ops : List (Op ι)) (i : ι) (e t : Bytes) :
    Live (run ops i).history e t → (run ops i).set.contains e = true :=
  fun hlive => ORSet.contains_iff.mpr ⟨t, (run_sound ops i).live hlive⟩

/-! ## Runs that bring nothing back -/

/-- The set holds no tag that a removal has observed. -/
def Replica.Exact (r : Replica) : Prop :=
  ∀ e t, r.set.Tagged e t → ¬ Removed r.history e t

def Exact (c : Replicas ι) : Prop := ∀ i, (c i).Exact

theorem Replica.Sound.tagged_iff {r : Replica} {e t : Bytes} (h : r.Sound) (hexact : r.Exact) :
    r.set.Tagged e t ↔ Live r.history e t :=
  ⟨fun htag => ⟨h.tagged htag, hexact e t htag⟩, h.live⟩

theorem Replica.Exact.add {r : Replica} {e t : Bytes} (h : r.Exact) (hsound : r.Sound)
    (hfresh : Event.add e t ∉ r.history) : (r.add e t).Exact := by
  intro e' t' htag hrem
  have hold : Removed r.history e' t' := removed_add.mp hrem
  rcases ORSet.tagged_add.mp htag with ⟨rfl, rfl⟩ | htag
  · exact hfresh (hsound.removed hold)
  · exact h e' t' htag hold

theorem Replica.Exact.remove {r : Replica} {e : Bytes} (h : r.Exact) : (r.remove e).Exact := by
  intro e' t' htag hrem
  obtain ⟨hne, htag⟩ := ORSet.tagged_remove.mp htag
  rcases removed_remove.mp hrem with ⟨he, -⟩ | hold
  · exact hne he
  · exact h e' t' htag hold

/-- A merge of exact replicas is exact just when it brings nothing back. -/
theorem Replica.Exact.merge_iff {r other : Replica} (h : r.Exact) (ho : other.Exact) :
    (r.merge other).Exact ↔ ∀ e t,
      (r.set.Tagged e t → ¬ Removed other.history e t) ∧
      (other.set.Tagged e t → ¬ Removed r.history e t) := by
  constructor
  · intro hexact e t
    constructor
    · intro htag hrem
      exact hexact e t (ORSet.tagged_merge.mpr (.inl htag)) (removed_append.mpr (.inr hrem))
    · intro htag hrem
      exact hexact e t (ORSet.tagged_merge.mpr (.inr htag)) (removed_append.mpr (.inl hrem))
  · intro hbrings e t htag hrem
    rcases ORSet.tagged_merge.mp htag with hl | hr
    · exact (removed_append.mp hrem).elim (h e t hl) ((hbrings e t).1 hl)
    · exact (removed_append.mp hrem).elim ((hbrings e t).2 hr) (ho e t hr)

/-- **One operation**: exact replicas stay exact just when it brings nothing
back. -/
theorem perform_exact_iff (c : Replicas ι) (o : Op ι) (hfresh : Fresh c o) (hsound : Sound c)
    (h : Exact c) : Exact (perform c o) ↔ BringsBackNothing c o := by
  cases o with
  | add i e t =>
    refine iff_of_true (fun k => ?_) True.intro
    rw [perform, Function.update_apply]
    split
    · exact (h i).add (hsound i) (hfresh i e)
    · exact h k
  | remove i e =>
    refine iff_of_true (fun k => ?_) True.intro
    rw [perform, Function.update_apply]
    split
    · exact (h i).remove
    · exact h k
  | merge i j =>
    rw [BringsBackNothing, ← (h i).merge_iff (h j)]
    constructor
    · intro hexact
      have hi := hexact i
      rwa [perform, Function.update_self] at hi
    · intro hmerge k
      rw [perform, Function.update_apply]
      split
      · exact hmerge
      · exact h k

/-- **Membership is the specification's** in every run whose additions are
fresh and whose merges bring nothing back. -/
theorem contains_iff_live (ops : List (Op ι))
    (h : Run.Each perform (fun c o => Fresh c o ∧ BringsBackNothing c o) (fun _ => noReplica) ops)
    (i : ι) (e : Bytes) :
    (run ops i).set.contains e = true ↔ ∃ t, Live (run ops i).history e t := by
  have hinv : Sound (run ops) ∧ Exact (run ops) := by
    have hstep : ∀ (c : Replicas ι) (o : Op ι), Fresh c o ∧ BringsBackNothing c o →
        Sound c ∧ Exact c → Sound (perform c o) ∧ Exact (perform c o) := by
      rintro c o ⟨hfresh, hbrings⟩ ⟨hsound, hexact⟩
      exact ⟨perform_sound c o hsound, (perform_exact_iff c o hfresh hsound hexact).mpr hbrings⟩
    exact h.preserves hstep
      ⟨fun _ => noReplica_sound, fun _ _ _ htag => absurd htag ORSet.tagged_new⟩
  rw [ORSet.contains_iff]
  exact exists_congr fun t => (hinv.1 i).tagged_iff (hinv.2 i)

/-- A laptop adds a file, a phone merges it, the phone removes it. -/
def sampleRemoval : List (Op Bool) :=
  [.add true (ascii "photo") (ascii "t1"), .merge false true, .remove false (ascii "photo")]

theorem sampleRemoval_contains :
    (run sampleRemoval false).set.contains (ascii "photo") = true ↔
      ∃ t, Live (run sampleRemoval false).history (ascii "photo") t := by
  refine contains_iff_live sampleRemoval ?_ false (ascii "photo")
  refine ⟨⟨?_, True.intro⟩, ⟨True.intro, ?_⟩, ⟨True.intro, True.intro⟩, True.intro⟩
  · intro i e hmem
    cases hmem
  · intro e t
    refine ⟨fun htag => absurd htag ORSet.tagged_new, fun _ hrem => ?_⟩
    obtain ⟨_, hmem, -⟩ := hrem
    cases hmem

/-- The phone merges the laptop once more. -/
def sampleReturn : List (Op Bool) := sampleRemoval ++ [.merge false true]

/-- The removed file is back. -/
theorem merge_resurrects :
    Run.Each perform Fresh (fun _ => noReplica) sampleReturn ∧
      (run sampleReturn false).set.contains (ascii "photo") = true ∧
      ¬ ∃ t, Live (run sampleReturn false).history (ascii "photo") t := by
  refine ⟨⟨?_, True.intro, True.intro, True.intro, True.intro⟩, by decide, ?_⟩
  · intro i e hmem
    cases hmem
  · rintro ⟨t, hadd, hrem⟩
    have ht : t = ascii "t1" := by
      have hmem : Event.add (ascii "photo") t ∈
          [Event.remove (ascii "photo") [ascii "t1"], .add (ascii "photo") (ascii "t1"),
            .add (ascii "photo") (ascii "t1")] := hadd
      simpa using hmem
    subst ht
    exact hrem ⟨[ascii "t1"], List.mem_cons_self, List.mem_cons_self⟩

end ORSet

end UsbVault.Sync
