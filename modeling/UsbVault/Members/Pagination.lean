import Mathlib.Data.Prod.Lex
import UsbVault.Lib.Bytes
import UsbVault.Lib.Keyset
import UsbVault.Lib.Run

/-!
# Pagination

`ListVaultsPaginated` (`internal/vault/repository.go`) and
`HandleListVaults` (`internal/vault/service.go`), and a client that follows
`next_cursor` while vaults are created and deleted. The cursor is the id of
the last vault of a page, which is looked up again for the next page; a
deleted vault keeps its row, so the cursor always has a position. The texts
of the times are left out.
-/

namespace UsbVault.Pagination

open Keyset

/-- A UUID, ordered by its bytes. -/
abbrev Uuid := Fin (2 ^ 128)

/-- A row of the table `vaults`; times are in microseconds. -/
structure VaultRow where
  id : Uuid
  ownerId : Uuid
  encryptedMetadata : Wire.Bytes
  createdAt : Int
  updatedAt : Int
  deletedAt : Option Int
  deriving DecidableEq

/-- `database.VaultRecord` -/
structure VaultRecord where
  id : Uuid
  ownerId : Uuid
  encryptedMetadata : Wire.Bytes
  createdAt : Int
  updatedAt : Int
  deriving DecidableEq

/-- The columns of the page. -/
def VaultRow.record (v : VaultRow) : VaultRecord :=
  ⟨v.id, v.ownerId, v.encryptedMetadata, v.createdAt, v.updatedAt⟩

/-- `(created_at, id)` -/
def VaultRow.key (v : VaultRow) : Int ×ₗ Uuid := toLex (v.createdAt, v.id)

def VaultRecord.key (v : VaultRecord) : Int ×ₗ Uuid := toLex (v.createdAt, v.id)

/-- `owner_id = $1 AND deleted_at IS NULL` -/
def VaultRow.Live (ownerID : Uuid) (v : VaultRow) : Prop :=
  v.ownerId = ownerID ∧ v.deletedAt = none

instance (ownerID : Uuid) (v : VaultRow) : Decidable (v.Live ownerID) :=
  inferInstanceAs (Decidable (_ ∧ _))

/-- `SET deleted_at = NOW() WHERE id = $1 AND deleted_at IS NULL` -/
def VaultRow.delete (vaultID : Uuid) (now : Int) (v : VaultRow) : VaultRow :=
  if v.id = vaultID ∧ v.deletedAt = none then { v with deletedAt := some now } else v

theorem VaultRow.delete_id (vaultID : Uuid) (now : Int) (v : VaultRow) :
    (v.delete vaultID now).id = v.id := by
  rw [VaultRow.delete]
  split <;> rfl

/-- The table, with its primary key. -/
structure Vaults where
  rows : List VaultRow
  unique : (rows.map VaultRow.id).Nodup

/-- `CreateVault`: the statement fails when there is a row with the id. -/
def Vaults.create (table : Vaults) (vaultID ownerID : Uuid) (encryptedMetadata : Wire.Bytes)
    (now : Int) : Vaults :=
  if h : vaultID ∈ table.rows.map VaultRow.id then table
  else
    { rows := table.rows ++ [⟨vaultID, ownerID, encryptedMetadata, now, now, none⟩]
      unique := by
        rw [List.map_append]
        refine List.nodup_append.mpr ⟨table.unique, List.nodup_singleton _, ?_⟩
        rintro a ha b hb rfl
        obtain rfl : a = vaultID := List.mem_singleton.mp hb
        exact h ha }

/-- `DeleteVault` -/
def Vaults.delete (table : Vaults) (vaultID : Uuid) (now : Int) : Vaults where
  rows := table.rows.map (VaultRow.delete vaultID now)
  unique := by
    rw [List.map_map, Function.comp_def]
    simp only [VaultRow.delete_id]
    exact table.unique

/-! ## A page -/

/-- `ORDER BY created_at DESC, id DESC LIMIT $2` over a `WHERE` clause. -/
def Vaults.select (table : Vaults) (p : VaultRow → Bool) (limit : Nat) : List VaultRecord :=
  (((table.rows.filter p).insertionSort fun v w => w.key ≤ v.key).take limit).map VaultRow.record

/-- `ListVaultsPaginated` -/
def listVaultsPaginated (table : Vaults) (ownerID : Uuid) (cursor : Option Uuid) (limit : Nat) :
    List VaultRecord :=
  match cursor with
  | none => table.select (fun v => v.Live ownerID) limit
  | some cursor =>
    match table.rows.find? (fun c => c.id = cursor) with
    | none => []  -- no row is less than NULL
    | some c => table.select (fun v => v.Live ownerID ∧ v.key < c.key) limit

/-- `PaginatedVaultResponse`; an absent cursor is the empty one. -/
structure PaginatedVaultResponse where
  vaults : List VaultRecord
  nextCursor : Option Uuid
  hasMore : Bool
  deriving DecidableEq

/-- The page size that `HandleListVaults` takes from what `Sscanf` reads. -/
def pageLimit (parsed : Option Int) : Nat :=
  let limit := parsed.getD 50
  if limit < 1 then 1 else if limit > 200 then 200 else limit.toNat

theorem pageLimit_pos (parsed : Option Int) : 0 < pageLimit parsed := by
  rw [pageLimit]
  split
  · exact Nat.one_pos
  · split <;> omega

/-- `HandleListVaults` -/
def handleListVaults (table : Vaults) (userID : Uuid) (cursor : Option Uuid)
    (parsed : Option Int) : PaginatedVaultResponse :=
  let limit := pageLimit parsed
  let vaults := listVaultsPaginated table userID cursor (limit + 1)
  let hasMore := decide (vaults.length > limit)
  let vaults := if hasMore then vaults.take limit else vaults
  { vaults := vaults
    nextCursor := if hasMore then vaults.getLast?.map VaultRecord.id else none
    hasMore := hasMore }

/-! ## A traversal -/

/-- The table, and a client that has followed `next_cursor` so far. -/
structure State where
  table : Vaults
  cursor : Option Uuid
  visited : List VaultRecord
  finished : Bool

/-- The client asks for the first page next. -/
def begin (table : Vaults) : State := ⟨table, none, [], false⟩

inductive Action where
  | create (vaultID ownerID : Uuid) (encryptedMetadata : Wire.Bytes) (now : Int)
  | delete (vaultID : Uuid) (now : Int)
  | page (parsed : Option Int)

/-- The client asks for the next page until `has_more` is false. -/
def step (userID : Uuid) (s : State) : Action → State
  | .create vaultID ownerID encryptedMetadata now =>
    { s with table := s.table.create vaultID ownerID encryptedMetadata now }
  | .delete vaultID now => { s with table := s.table.delete vaultID now }
  | .page parsed =>
    if s.finished then s
    else
      let response := handleListVaults s.table userID s.cursor parsed
      { s with
        cursor := response.nextCursor
        visited := s.visited ++ response.vaults
        finished := !response.hasMore }

/-- A vault of the user is created later than those that the user has. -/
def Later (userID : Uuid) (s : State) : Action → Prop
  | .create _ ownerID _ now =>
    ownerID = userID → ∀ v ∈ s.table.rows, v.ownerId = userID → v.createdAt < now
  | .delete _ _ => True
  | .page _ => True

/-- The pages that an action asks for. -/
def Action.pages : Action → Nat
  | .page _ => 1
  | .create _ _ _ _ => 0
  | .delete _ _ => 0

/-! ## The table over time -/

/-- The vaults of the user that are not deleted. -/
def Vaults.live (table : Vaults) (userID : Uuid) : List VaultRow :=
  table.rows.filter fun v => v.Live userID

variable {table first : Vaults} {userID : Uuid}

theorem mem_live {v : VaultRow} : v ∈ table.live userID ↔ v ∈ table.rows ∧ v.Live userID := by
  rw [Vaults.live, List.mem_filter, decide_eq_true_iff]

theorem live_keys (table : Vaults) (userID : Uuid) :
    ((table.live userID).map VaultRow.key).Nodup := by
  refine List.Nodup.of_map (fun k : Int ×ₗ Uuid => (ofLex k).2) ?_
  rw [List.map_map]
  exact table.unique.sublist (List.filter_sublist.map VaultRow.id)

/-- What the first page's table leaves for the later ones: its rows stay,
with the columns of the cursor, and a new vault of the user is later than
the user's first ones. -/
structure Since (userID : Uuid) (first now : Vaults) : Prop where
  stays : ∀ w ∈ first.rows, ∃ v ∈ now.rows,
    v.id = w.id ∧ v.ownerId = w.ownerId ∧ v.createdAt = w.createdAt
  later : ∀ v ∈ now.rows, v.Live userID → v ∈ first.rows
    ∨ ∀ w ∈ first.rows, w.ownerId = userID → w.createdAt < v.createdAt

theorem Since.refl (userID : Uuid) (table : Vaults) : Since userID table table where
  stays := fun w hw => ⟨w, hw, rfl, rfl, rfl⟩
  later := fun _ hv _ => .inl hv

theorem mem_create {vaultID ownerID : Uuid} {encryptedMetadata : Wire.Bytes} {now : Int}
    {v : VaultRow} (h : v ∈ (table.create vaultID ownerID encryptedMetadata now).rows) :
    v ∈ table.rows ∨ v = ⟨vaultID, ownerID, encryptedMetadata, now, now, none⟩ := by
  rw [Vaults.create] at h
  split at h
  · exact .inl h
  · rcases List.mem_append.mp h with hold | hnew
    · exact .inl hold
    · exact .inr (List.mem_singleton.mp hnew)

theorem create_mem {vaultID ownerID : Uuid} {encryptedMetadata : Wire.Bytes} {now : Int}
    {v : VaultRow} (h : v ∈ table.rows) :
    v ∈ (table.create vaultID ownerID encryptedMetadata now).rows := by
  rw [Vaults.create]
  split
  · exact h
  · exact List.mem_append_left _ h

theorem mem_of_delete_live {vaultID : Uuid} {now : Int} {v : VaultRow}
    (h : v ∈ (table.delete vaultID now).rows) (hlive : v.deletedAt = none) : v ∈ table.rows := by
  obtain ⟨u, hu, rfl⟩ := List.mem_map.mp h
  rw [VaultRow.delete] at hlive ⊢
  split
  · rename_i hdeleted
    rw [if_pos hdeleted] at hlive
    cases hlive
  · exact hu

theorem Since.create {now : Vaults} (h : Since userID first now) {vaultID ownerID : Uuid}
    {encryptedMetadata : Wire.Bytes} {at' : Int}
    (hlater : ownerID = userID → ∀ v ∈ now.rows, v.ownerId = userID → v.createdAt < at') :
    Since userID first (now.create vaultID ownerID encryptedMetadata at') where
  stays := by
    intro w hw
    obtain ⟨v, hv, heq⟩ := h.stays w hw
    exact ⟨v, create_mem hv, heq⟩
  later := by
    intro v hv hlive
    rcases mem_create hv with hold | rfl
    · exact h.later v hold hlive
    · refine .inr fun w hw howner => ?_
      obtain ⟨u, hu, -, huOwner, huCreated⟩ := h.stays w hw
      rw [← huCreated]
      exact hlater hlive.1 u hu (huOwner.trans howner)

theorem Since.delete {now : Vaults} (h : Since userID first now) (vaultID : Uuid) (at' : Int) :
    Since userID first (now.delete vaultID at') where
  stays := by
    intro w hw
    obtain ⟨v, hv, hid, howner, hcreated⟩ := h.stays w hw
    refine ⟨v.delete vaultID at', List.mem_map_of_mem hv, ?_⟩
    rw [VaultRow.delete]
    split <;> exact ⟨hid, howner, hcreated⟩
  later := fun v hv hlive => h.later v (mem_of_delete_live hv hlive.2) hlive

/-- A first row that is there after a creation was there before it. -/
theorem Since.mem_of_create {now : Vaults} (h : Since userID first now) {vaultID ownerID : Uuid}
    {encryptedMetadata : Wire.Bytes} {at' : Int} {v : VaultRow} (hv : v ∈ first.rows)
    (hm : v ∈ (now.create vaultID ownerID encryptedMetadata at').rows) : v ∈ now.rows := by
  obtain ⟨u, hu, hid, -⟩ := h.stays v hv
  rw [Vaults.create] at hm
  split at hm
  · exact hm
  · rename_i hfresh
    rcases List.mem_append.mp hm with hold | hnew
    · exact hold
    · obtain rfl := List.mem_singleton.mp hnew
      exact absurd (List.mem_map.mpr ⟨u, hu, hid⟩) hfresh

theorem Since.behind_first {now : Vaults} (h : Since userID first now) {u v : VaultRow}
    (hu : u ∈ first.live userID) (hv : v ∈ now.live userID) (hlt : v.key < u.key) :
    v ∈ first.live userID := by
  obtain ⟨hvrows, hvlive⟩ := mem_live.mp hv
  obtain ⟨hurows, hulive⟩ := mem_live.mp hu
  rcases h.later v hvrows hvlive with hfirst | hlater
  · exact mem_live.mpr ⟨hfirst, hvlive⟩
  · have hcreated := hlater u hurows hulive.1
    rcases Prod.Lex.lt_iff.mp hlt with hless | ⟨heq, -⟩
    · exact absurd (lt_trans hcreated hless) (lt_irrefl _)
    · have hcreated' : v.createdAt = u.createdAt := heq
      omega

/-! ## The pages of a traversal -/

/-- The position that a cursor has. -/
def Resolves (table : Vaults) : Option Uuid → Option (Int ×ₗ Uuid) → Prop
  | none, position => position = none
  | some cursor, position => ∃ c ∈ table.rows, c.id = cursor ∧ position = some c.key

theorem find_id {c : VaultRow} (hc : c ∈ table.rows) :
    table.rows.find? (fun v => v.id = c.id) = some c := by
  cases hfind : table.rows.find? (fun v => v.id = c.id) with
  | none => exact absurd (decide_eq_true rfl) (List.find?_eq_none.mp hfind c hc)
  | some v =>
    have hfound := List.find?_some hfind
    have hid : v.id = c.id := decide_eq_true_iff.mp hfound
    rw [List.inj_on_of_nodup_map table.unique (List.mem_of_find?_eq_some hfind) hc hid]

theorem select_behind (position : Option (Int ×ₗ Uuid)) (p : VaultRow → Bool) (limit : Nat)
    (hp : ∀ v, p v = true ↔ Behind VaultRow.key position v ∧ v.Live userID) :
    table.select p limit
      = ((behind VaultRow.key position (table.live userID)).take limit).map VaultRow.record := by
  have hfilter : table.rows.filter p
      = (table.live userID).filter fun v => Behind VaultRow.key position v := by
    rw [Vaults.live, List.filter_filter]
    refine List.filter_congr fun v _ => ?_
    rw [Bool.eq_iff_iff, hp, Bool.and_eq_true, decide_eq_true_iff, decide_eq_true_iff]
  rw [Vaults.select, hfilter, behind]

theorem listVaultsPaginated_eq {cursor : Option Uuid} {position : Option (Int ×ₗ Uuid)}
    (h : Resolves table cursor position) (limit : Nat) :
    listVaultsPaginated table userID cursor limit
      = ((behind VaultRow.key position (table.live userID)).take limit).map VaultRow.record := by
  cases cursor with
  | none =>
    obtain rfl : position = none := h
    refine select_behind none _ limit fun v => ?_
    rw [decide_eq_true_iff]
    exact (and_iff_right trivial).symm
  | some cursor =>
    obtain ⟨c, hc, rfl, rfl⟩ := h
    rw [listVaultsPaginated, find_id hc]
    refine select_behind (some c.key) _ limit fun v => ?_
    rw [decide_eq_true_iff, Behind]
    tauto

section

variable {cursor : Option Uuid} {position : Option (Int ×ₗ Uuid)} {parsed : Option Int}

theorem handleListVaults_more (h : Resolves table cursor position)
    (hmore : pageLimit parsed < (behind VaultRow.key position (table.live userID)).length) :
    handleListVaults table userID cursor parsed
      = ⟨((behind VaultRow.key position (table.live userID)).take (pageLimit parsed)).map
          VaultRow.record,
        ((behind VaultRow.key position (table.live userID)).take (pageLimit parsed)).getLast?.map
          VaultRow.id, true⟩ := by
  rw [handleListVaults]
  rw [listVaultsPaginated_eq h]
  generalize behind VaultRow.key position (table.live userID) = rows at hmore
  have hlength : ((rows.take (pageLimit parsed + 1)).map VaultRow.record).length
      > pageLimit parsed := by
    rw [List.length_map, List.length_take]
    omega
  rw [decide_eq_true hlength, if_pos rfl, if_pos rfl, ← List.map_take, List.take_take,
    Nat.min_eq_left (Nat.le_succ _), List.getLast?_map, Option.map_map]
  rfl

theorem handleListVaults_last (h : Resolves table cursor position)
    (hlast : ¬pageLimit parsed < (behind VaultRow.key position (table.live userID)).length) :
    handleListVaults table userID cursor parsed
      = ⟨(behind VaultRow.key position (table.live userID)).map VaultRow.record, none, false⟩ := by
  rw [handleListVaults]
  rw [listVaultsPaginated_eq h]
  generalize behind VaultRow.key position (table.live userID) = rows at hlast
  rw [List.take_of_length_le (by omega), List.length_map, decide_eq_false hlast]
  rfl

end

/-- The client and the traversal of the rows that it makes. -/
structure Simulates (s : State) (t : Traversal VaultRow (Int ×ₗ Uuid)) : Prop where
  visited : s.visited = t.visited.map VaultRow.record
  finished : s.finished = t.finished
  position : t.finished = false →
    ∃ u ∈ t.visited, s.cursor = some u.id ∧ t.position = some u.key

/-- **A page request is a page of the traversal.** -/
theorem simulates_page {s : State} {t : Traversal VaultRow (Int ×ₗ Uuid)}
    (hvisited : s.visited = t.visited.map VaultRow.record) (hfinished : s.finished = t.finished)
    (hresolves : t.finished = false → Resolves s.table s.cursor t.position)
    (parsed : Option Int) :
    Simulates (step userID s (.page parsed))
      (t.turn VaultRow.key (pageLimit parsed) (s.table.live userID)) := by
  cases hdone : t.finished with
  | true =>
    rw [step, if_pos (hfinished.trans hdone), Traversal.turn_finished hdone]
    exact ⟨hvisited, hfinished, fun h => absurd (hdone.symm.trans h) (by decide)⟩
  | false =>
    rw [step, if_neg (by rw [hfinished, hdone]; decide)]
    have hpage := hresolves hdone
    by_cases hmore :
        pageLimit parsed < (behind VaultRow.key t.position (s.table.live userID)).length
    · have hlimit := pageLimit_pos parsed
      rw [handleListVaults_more hpage hmore, Traversal.turn_more hdone hmore]
      refine ⟨by rw [hvisited, List.map_append], rfl, fun _ => ?_⟩
      obtain ⟨last, hlast⟩ := getLast_take hlimit hmore
      rw [hlast]
      exact ⟨last, List.mem_append_right _ (List.mem_of_getLast? hlast), rfl, rfl⟩
    · rw [handleListVaults_last hpage hmore, Traversal.turn_last hdone hmore]
      refine ⟨by rw [hvisited, List.map_append], rfl, fun h => ?_⟩
      exact absurd (show true = false from h) (by decide)

/-! ## Whole traversals -/

/-- After `pages` pages that the client has asked for, from the table of the
first one on. -/
structure Progress (userID : Uuid) (first : Vaults) (pages : Nat) (s : State)
    (t : Traversal VaultRow (Int ×ₗ Uuid)) : Prop where
  simulates : Simulates s t
  since : Since userID first s.table
  covers : t.Covers VaultRow.key (fun v => v ∈ first.live userID ∧ v ∈ s.table.live userID)
  within : t.Within (first.live userID) pages

theorem progress_first (userID : Uuid) (table : Vaults) (parsed : Option Int) :
    ∃ t, Progress userID table 1 (step userID (begin table) (.page parsed)) t := by
  have hlimit := pageLimit_pos parsed
  refine ⟨Traversal.start.turn VaultRow.key (pageLimit parsed) (table.live userID), ?_⟩
  have hsame : (step userID (begin table) (.page parsed)).table = table := rfl
  refine ⟨@simulates_page userID (begin table) .start rfl rfl (fun _ => rfl) parsed, ?_, ?_, ?_⟩
  · rw [hsame]
    exact .refl userID table
  · rw [hsame]
    exact (Traversal.Covers.start _).turn hlimit (live_keys table userID) fun v hv => hv.1
  · exact (Traversal.Within.start _).turn hlimit fun _ v hv _ => hv

/-- **One action** later. -/
theorem progress_step {pages : Nat} {s : State} {a : Action} (hlater : Later userID s a)
    (h : ∃ t, Progress userID first pages s t) :
    ∃ t, Progress userID first (pages + a.pages) (step userID s a) t := by
  obtain ⟨t, h⟩ := h
  cases a with
  | create vaultID ownerID encryptedMetadata now =>
    refine ⟨t, ⟨h.simulates.visited, h.simulates.finished, h.simulates.position⟩,
      h.since.create hlater, h.covers.mono fun v hv => ⟨hv.1, ?_⟩, h.within⟩
    obtain ⟨hrows, hlive⟩ := mem_live.mp hv.2
    exact mem_live.mpr ⟨h.since.mem_of_create (mem_live.mp hv.1).1 hrows, hlive⟩
  | delete vaultID now =>
    refine ⟨t, ⟨h.simulates.visited, h.simulates.finished, h.simulates.position⟩,
      h.since.delete vaultID now, h.covers.mono fun v hv => ⟨hv.1, ?_⟩, h.within⟩
    obtain ⟨hrows, hlive⟩ := mem_live.mp hv.2
    exact mem_live.mpr ⟨mem_of_delete_live hrows hlive.2, hlive⟩
  | page parsed =>
    have hlimit := pageLimit_pos parsed
    have htable : (step userID s (.page parsed)).table = s.table := by
      rw [step]
      split <;> rfl
    refine ⟨t.turn VaultRow.key (pageLimit parsed) (s.table.live userID), ?_, ?_, ?_, ?_⟩
    · refine simulates_page h.simulates.visited h.simulates.finished (fun hmore => ?_) parsed
      obtain ⟨u, hu, hcursor, hposition⟩ := h.simulates.position hmore
      obtain ⟨c, hc, hid, -, hcreated⟩ := h.since.stays u (mem_live.mp (h.within.among u hu)).1
      rw [hcursor, hposition]
      exact ⟨c, hc, hid, by rw [VaultRow.key, VaultRow.key, hid, hcreated]⟩
    · rw [htable]
      exact h.since
    · rw [htable]
      exact h.covers.turn hlimit (live_keys s.table userID) fun v hv => hv.2
    · refine h.within.turn hlimit fun hmore v hv hbehind => ?_
      obtain ⟨u, hu, -, hposition⟩ := h.simulates.position hmore
      rw [hposition] at hbehind
      exact h.since.behind_first (h.within.among u hu) hv hbehind

/-- The first page, and what happens after it. -/
def traverse (userID : Uuid) (table : Vaults) (parsed : Option Int) (actions : List Action) :
    State :=
  actions.foldl (step userID) (step userID (begin table) (.page parsed))

/-- **Pagination is complete.** From the first page on, whatever vaults are
deleted and (later) created between the pages and whatever page sizes are
asked for: the vaults come in descending order and none twice; the traversal
has ended when more pages have been asked for than the user had vaults at
first; and at its end every vault that was there at first and still is has
been visited exactly once. -/
theorem listing_complete (userID : Uuid) (table : Vaults) (parsed : Option Int)
    (actions : List Action)
    (hlater : Run.Each (step userID) (Later userID) (step userID (begin table) (.page parsed))
      actions) :
    let s := traverse userID table parsed actions
    s.visited.Pairwise (fun v w => w.key < v.key)
      ∧ (s.visited.map VaultRecord.id).Nodup
      ∧ ((table.live userID).length ≤ (actions.map Action.pages).sum → s.finished = true)
      ∧ (s.finished = true → ∀ v ∈ table.live userID, v ∈ s.table.live userID →
        (s.visited.map VaultRecord.id).count v.id = 1) := by
  intro s
  obtain ⟨t, h⟩ : ∃ t, Progress userID table (1 + (actions.map Action.pages).sum) s t :=
    @Run.Each.counts _ _ _ _ (fun pages s => ∃ t, Progress userID table pages s t) Action.pages
      (fun _ _ _ => progress_step) actions _ _ hlater (progress_first userID table parsed)
  have hids : (s.visited.map VaultRecord.id).Nodup := by
    rw [h.simulates.visited, List.map_map]
    refine h.covers.nodup.map_on fun v hv w hw hid => ?_
    exact List.inj_on_of_nodup_map table.unique (mem_live.mp (h.within.among v hv)).1
      (mem_live.mp (h.within.among w hw)).1 hid
  refine ⟨?_, hids, fun hmany => ?_, fun hfinished v hfirst hlast => ?_⟩
  · rw [h.simulates.visited, List.pairwise_map]
    exact h.covers.sorted
  · rw [h.simulates.finished]
    exact h.within.finished h.covers (by omega)
  · refine List.count_eq_one_of_mem hids ?_
    rw [h.simulates.finished] at hfinished
    rcases h.covers.covered v ⟨hfirst, hlast⟩ with hvisited | ⟨hmore, -⟩
    · rw [h.simulates.visited, List.map_map]
      exact List.mem_map_of_mem hvisited
    · exact absurd (hfinished.symm.trans hmore) (by decide)

/-! ### A cursor whose vault is deleted -/

/-- Three vaults, two of the same time. -/
def sampleTable : Vaults where
  rows := [⟨1, 9, [], 100, 100, none⟩, ⟨2, 9, [], 100, 100, none⟩, ⟨3, 9, [], 200, 200, none⟩]
  unique := by decide

/-- The vault of the cursor is deleted, another one is created, and two more
pages are asked for. -/
def sampleActions : List Action :=
  [.delete 3 300, .create 4 9 [] 400, .page (some 0), .page none, .page none]

theorem listing_complete_sample :
    (traverse 9 sampleTable (some 1) sampleActions).finished = true
      ∧ ∀ v ∈ sampleTable.live 9, v ∈ (traverse 9 sampleTable (some 1) sampleActions).table.live 9 →
        ((traverse 9 sampleTable (some 1) sampleActions).visited.map VaultRecord.id).count v.id
          = 1 := by
  have hlater : Run.Each (step 9) (Later 9) (step 9 (begin sampleTable) (.page (some 1)))
      sampleActions := by
    refine ⟨trivial, fun _ => ?_, trivial, trivial, trivial, trivial⟩
    decide +kernel
  obtain ⟨-, -, hends, hvisits⟩ := listing_complete 9 sampleTable (some 1) sampleActions hlater
  have hfinished := hends (by decide)
  exact ⟨hfinished, hvisits hfinished⟩

end UsbVault.Pagination
