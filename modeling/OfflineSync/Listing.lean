import OfflineSync.Replay

/-!
# Listing the items

`find` collects the rows that match a filter in the order in which the hash map iterates, and sorts
them by name. What it returns is always the matching rows, each once, in the order of their names
(`Reachable.lists_find`). The sort is stable and has no other key than the name, so rows with one
name stay in the order of the hash map: the listing is a function of the rows exactly when the
matching rows have distinct names (`find_eq_iff`). Two replicas with the same rows, rebuilt in
different orders, may list them differently (`two_bolts`).
-/

namespace OfflineSync

namespace ItemStorage

/-- The same rows, in whatever order the hash maps iterate. -/
def SameRows (storage other : ItemStorage) : Prop :=
  ∀ id, other.findById id = storage.findById id

/-- What `items` should be when `find` is called with the filter: the rows that match, each once,
in the order of their names. -/
structure Lists (storage : ItemStorage) (filter : ItemFilter) (items : List Item) : Prop where
  ordered : items.Pairwise fun a b => a.name ≤ b.name
  rows : ∀ item, item ∈ items ↔
    (∃ id, storage.findById id = some item) ∧ filter.accepts item = true
  once : (items.map Item.id).Nodup

/-- The rows that match a filter have distinct names. -/
def DistinctNames (storage : ItemStorage) (filter : ItemFilter) : Prop :=
  ∀ id id' item item', storage.findById id = some item → storage.findById id' = some item' →
    filter.accepts item = true → filter.accepts item' = true → item.name = item'.name → id = id'

/-- The storages that the public operations make, over whatever logs. -/
inductive Reachable : ItemStorage → Prop
  | new (replicaIdProvider : ReplicaIdProvider) : Reachable (.new replicaIdProvider)
  | buildProjection {L : Type} [ReplicatedLog L] {storage : ItemStorage} (h : Reachable storage)
      (log : L) (id : ItemId) : Reachable (storage.buildProjection log id)
  | store {L : Type} [ReplicatedLog L] {storage : ItemStorage} (h : Reachable storage) (log : L)
      (now : ℕ → ℤ) (item : Item) (ids : List Uuid) :
      Reachable (storage.store log now item ids).1

variable {storage other : ItemStorage} {filter : ItemFilter}

/-- Every row is stored under the id of its item. -/
def Keyed (storage : ItemStorage) : Prop :=
  ∀ id item, storage.findById id = some item → item.id = id

private theorem Keyed.buildProjection {L : Type} [ReplicatedLog L] (h : storage.Keyed) (log : L)
    (id : ItemId) : (storage.buildProjection log id).Keyed := by
  intro id' item hitem
  by_cases hid : id' = id
  · subst hid
    have hrow : rowAt (ReplicatedLog.entries log) id' = some item := by
      rw [rowAt, ← ReplicatedLog.eventsOfEntity_eq, ← hitem]
      exact (ItemTable.lookup_setRow_self _ _ _).symm
    exact rowAt_id hrow
  · exact h id' item ((ItemTable.lookup_setRow_of_ne _ _ hid).symm.trans hitem)

private theorem Reachable.keyed (h : storage.Reachable) : storage.Keyed := by
  induction h with
  | new =>
    intro id item hitem
    cases hitem
  | buildProjection _ log id ih => exact ih.buildProjection log id
  | store _ log now item ids ih => exact ih.buildProjection _ item.id

/-- A rebuild of several items, as at the end of a round. -/
private theorem Reachable.rebuild {L : Type} [ReplicatedLog L] (h : storage.Reachable) (log : L)
    (ids : List ItemId) :
    (ids.foldl (fun storage id => storage.buildProjection log id) storage).Reachable := by
  induction ids generalizing storage with
  | nil => exact h
  | cons id ids ih => exact ih (h.buildProjection log id)

/-- The matching rows, as the hash map lists them. -/
def matching (storage : ItemStorage) (filter : ItemFilter) : List Item :=
  (storage.items.entries.map Sigma.snd).filter filter.accepts

private theorem find_eq (storage : ItemStorage) (filter : ItemFilter) :
    storage.find filter = sortByKey Item.name (storage.matching filter) := rfl

theorem Keyed.nodup_ids (h : storage.Keyed) (filter : ItemFilter) :
    ((storage.matching filter).map Item.id).Nodup := by
  have hkeys : (storage.items.entries.map Sigma.snd).map Item.id = storage.items.entries.keys := by
    rw [List.map_map]
    refine List.map_congr_left fun row hrow => ?_
    exact h row.1 row.2 (AList.mem_lookup_iff.mpr hrow)
  have hsub := (List.filter_sublist (p := filter.accepts)
    (l := storage.items.entries.map Sigma.snd)).map Item.id
  rw [hkeys] at hsub
  exact hsub.nodup storage.items.nodupKeys

private theorem SameRows.entries_perm (h : storage.SameRows other) :
    other.items.entries.Perm storage.items.entries := by
  refine List.lookup_ext other.items.nodupKeys storage.items.nodupKeys fun id item => ?_
  change item ∈ other.findById id ↔ item ∈ storage.findById id
  rw [h id]

private theorem SameRows.matching_perm (h : storage.SameRows other) (filter : ItemFilter) :
    (other.matching filter).Perm (storage.matching filter) := by
  have hmap := h.entries_perm.map fun row : (_ : ItemId) × Item => row.2
  exact hmap.filter filter.accepts

/-- **What `find` returns**: the matching rows, each once, ordered by name. -/
theorem Reachable.lists_find (h : storage.Reachable) (hsame : storage.SameRows other)
    (filter : ItemFilter) : storage.Lists filter (other.find filter) where
  ordered := pairwise_sortByKey Item.name (other.matching filter)
  rows item := by
    rw [mem_find_iff]
    simp only [hsame _]
  once := by
    have hperm : (other.find filter).Perm (storage.matching filter) :=
      (sortByKey_perm Item.name _).trans (hsame.matching_perm filter)
    exact (hperm.map Item.id).nodup_iff.mpr (h.keyed.nodup_ids filter)

/-- Rows with distinct names have one arrangement. -/
private theorem DistinctNames.find_eq_find (h : storage.DistinctNames filter)
    (hsame : storage.SameRows other) : other.find filter = storage.find filter := by
  rw [find_eq, find_eq]
  refine sortByKey_eq_of_perm (hsame.matching_perm filter) fun a ha b hb hname => ?_
  have ha := (hsame.matching_perm filter).mem_iff.mp ha
  have hb := (hsame.matching_perm filter).mem_iff.mp hb
  obtain ⟨⟨id, ha⟩, hacc⟩ := mem_find_iff.mp (mem_sortByKey.mpr ha)
  obtain ⟨⟨id', hb⟩, hacc'⟩ := mem_find_iff.mp (mem_sortByKey.mpr hb)
  obtain rfl := h id id' a b ha hb hacc hacc' hname
  exact Option.some.inj (ha.symm.trans hb)

/-- The storage after its hash map has come to iterate in another order. -/
def rehash (storage : ItemStorage) (entries : List ((_ : ItemId) × Item))
    (h : storage.items.entries.Perm entries) : ItemStorage :=
  { storage with items := ⟨entries, (List.perm_nodupKeys h).mp storage.items.nodupKeys⟩ }

private theorem sameRows_rehash {entries : List ((_ : ItemId) × Item)}
    (h : storage.items.entries.Perm entries) : storage.SameRows (storage.rehash entries h) :=
  fun _ => AList.perm_lookup h.symm

/-- Two rows of a table can be the first two that the hash map lists. -/
private theorem exists_entries_perm {id id' : ItemId} {item item' : Item}
    (h : storage.findById id = some item) (h' : storage.findById id' = some item')
    (hne : id ≠ id') : ∃ rest, storage.items.entries.Perm (⟨id, item⟩ :: ⟨id', item'⟩ :: rest) := by
  obtain ⟨l₁, l₂, hl⟩ := List.append_of_mem (AList.mem_lookup_iff.mp h)
  have hmem : (⟨id', item'⟩ : (_ : ItemId) × Item) ∈ l₁ ++ l₂ := by
    have hmem := (hl ▸ List.perm_middle).mem_iff.mp (AList.mem_lookup_iff.mp h')
    rcases List.mem_cons.mp hmem with heq | hmem
    · exact absurd (congrArg Sigma.fst heq).symm hne
    · exact hmem
  obtain ⟨m₁, m₂, hm⟩ := List.append_of_mem hmem
  refine ⟨m₁ ++ m₂, ?_⟩
  rw [hl]
  refine List.perm_middle.trans (List.Perm.cons _ ?_)
  rw [hm]
  exact List.perm_middle

private theorem distinctNames_iff_nodup :
    storage.DistinctNames filter ↔ ((storage.matching filter).map Item.name).Nodup := by
  constructor
  · intro h
    have hmatching : (storage.matching filter).map Item.name
        = (storage.items.entries.filter fun row => filter.accepts row.2).map
          fun row => row.2.name := by
      rw [matching, List.filter_map, List.map_map]
      rfl
    rw [hmatching]
    refine List.Nodup.map_on (fun row hrow row' hrow' hname => ?_)
      (storage.items.nodupKeys.nodup.filter _)
    obtain ⟨hrow, hacc⟩ := List.mem_filter.mp hrow
    obtain ⟨hrow', hacc'⟩ := List.mem_filter.mp hrow'
    have hitem : storage.findById row.1 = some row.2 := AList.mem_lookup_iff.mpr hrow
    have hitem' : storage.findById row'.1 = some row'.2 := AList.mem_lookup_iff.mpr hrow'
    have hid := h _ _ _ _ hitem hitem' hacc hacc' hname
    rw [hid] at hitem
    exact Sigma.ext hid (heq_of_eq (Option.some.inj (hitem.symm.trans hitem')))
  · intro hnd id id' item item' hitem hitem' hacc hacc' hname
    by_contra hne
    obtain ⟨rest, hperm⟩ := exists_entries_perm hitem hitem' hne
    have hnames := ((sameRows_rehash hperm).matching_perm filter).map Item.name
    have hnd' := hnames.nodup_iff.mpr hnd
    simp [matching, rehash, hacc, hacc', hname] at hnd'

instance (storage : ItemStorage) (filter : ItemFilter) :
    Decidable (storage.DistinctNames filter) :=
  decidable_of_iff _ distinctNames_iff_nodup.symm

/-- Two matching rows with one name are listed in either order. -/
private theorem Keyed.exists_find_ne (h : storage.Keyed) {id id' : ItemId} {item item' : Item}
    (hitem : storage.findById id = some item) (hitem' : storage.findById id' = some item')
    (hacc : filter.accepts item = true) (hacc' : filter.accepts item' = true)
    (hname : item.name = item'.name) (hne : id ≠ id') :
    ∃ other, storage.SameRows other ∧ other.find filter ≠ storage.find filter := by
  obtain ⟨rest, hperm⟩ := exists_entries_perm hitem hitem' hne
  have hswap := hperm.trans (List.Perm.swap _ _ rest)
  have hfind : (storage.rehash _ hperm).matching filter
      = item :: item' :: (rest.map Sigma.snd).filter filter.accepts := by
    simp [matching, rehash, hacc, hacc']
  have hfind' : (storage.rehash _ hswap).matching filter
      = item' :: item :: (rest.map Sigma.snd).filter filter.accepts := by
    simp [matching, rehash, hacc, hacc']
  have hnd : ((storage.rehash _ hperm).matching filter).Nodup := by
    have hids := h.nodup_ids filter
    have hsame := (sameRows_rehash hperm).matching_perm filter
    exact hsame.nodup_iff.mpr (.of_map _ hids)
  have hdiff : (storage.rehash _ hperm).find filter ≠ (storage.rehash _ hswap).find filter := by
    rw [find_eq, find_eq, hfind, hfind']
    exact sortByKey_ne_swap hname (hfind ▸ hnd)
  by_contra hall
  push Not at hall
  exact hdiff ((hall _ (sameRows_rehash hperm)).trans (hall _ (sameRows_rehash hswap)).symm)

end ItemStorage

/-- **Listing is a function of the rows exactly when the matching rows have distinct names.** In
whatever order the hash map iterates, `find` returns the matching rows, each once, ordered by name;
it returns the same sequence in every order when no two of them share a name, and not otherwise. -/
theorem find_eq_iff (storage : ItemStorage) (h : storage.Reachable) (filter : ItemFilter) :
    (∀ other : ItemStorage, storage.SameRows other →
        other.find filter = storage.find filter ∧ storage.Lists filter (other.find filter)) ↔
      storage.DistinctNames filter := by
  constructor
  · intro hall id id' item item' hitem hitem' hacc hacc' hname
    by_contra hne
    obtain ⟨other, hsame, hdiff⟩ := h.keyed.exists_find_ne hitem hitem' hacc hacc' hname hne
    exact hdiff (hall other hsame).1
  · intro hnames other hsame
    exact ⟨hnames.find_eq_find hsame, h.lists_find hsame filter⟩

/-- Three items, two of them with one name. -/
def boltLog : DeviceEventLog where
  entries := [⟨1, 1, 100, "A", none, none, ⟨7⟩, .created "Bolt" 2⟩,
    ⟨2, 1, 200, "B", none, none, ⟨8⟩, .created "Bolt" 5⟩,
    ⟨3, 1, 300, "B", none, none, ⟨9⟩, .created "Nut" 1⟩]

/-- The items of the log that a storage has rebuilt, in order. -/
def boltStorage (ids : List ItemId) : ItemStorage :=
  ids.foldl (fun storage id => storage.buildProjection boltLog id) (.new ⟨"A"⟩)

private theorem reachable_boltStorage (ids : List ItemId) : (boltStorage ids).Reachable :=
  (ItemStorage.Reachable.new ⟨"A"⟩).rebuild boltLog ids

theorem find_eq_iff_oneBolt : (boltStorage [⟨7⟩, ⟨9⟩]).DistinctNames .empty ∧
    (boltStorage [⟨9⟩, ⟨7⟩]).find .empty = (boltStorage [⟨7⟩, ⟨9⟩]).find .empty := by
  have hnames : (boltStorage [⟨7⟩, ⟨9⟩]).DistinctNames .empty := by decide +kernel
  have hsame : (boltStorage [⟨7⟩, ⟨9⟩]).SameRows (boltStorage [⟨9⟩, ⟨7⟩]) := by
    intro id
    exact AList.perm_lookup (by decide +kernel)
  exact ⟨hnames, ((find_eq_iff _ (reachable_boltStorage _) .empty).mpr hnames _ hsame).1⟩

/-- **Two items with one name**: with the same rows, `find` returns them in either order. -/
theorem two_bolts : (boltStorage [⟨7⟩, ⟨8⟩]).Reachable ∧ (boltStorage [⟨8⟩, ⟨7⟩]).Reachable ∧
    (boltStorage [⟨7⟩, ⟨8⟩]).SameRows (boltStorage [⟨8⟩, ⟨7⟩]) ∧
    ((boltStorage [⟨7⟩, ⟨8⟩]).find .empty).map Item.id = [⟨8⟩, ⟨7⟩] ∧
    ((boltStorage [⟨8⟩, ⟨7⟩]).find .empty).map Item.id = [⟨7⟩, ⟨8⟩] ∧
    (boltStorage [⟨8⟩, ⟨7⟩]).find .empty ≠ (boltStorage [⟨7⟩, ⟨8⟩]).find .empty := by
  refine ⟨reachable_boltStorage _, reachable_boltStorage _, fun id => AList.perm_lookup ?_, ?_⟩
  · decide +kernel
  · decide +kernel

end OfflineSync
