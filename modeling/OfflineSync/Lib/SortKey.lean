import OfflineSync.Lib.Dedup
import Mathlib.Data.List.Sort

/-!
# Stable sorting by a key

`sortByKey f l` is the stable sort of `l` by the key `f`. Where `f` is injective on the
elements there is only one sorted arrangement, so the result depends on the multiset of the
elements alone (`sortByKey_eq_of_perm`), and a map that keeps the keys commutes with sorting
(`sortByKey_map`). Of two elements the one with the smaller key comes first
(`pair_sublist_sortByKey`), and two with one key come out as they went in, so that the result does
depend on the arrangement (`sortByKey_ne_swap`).
-/

universe u v w

variable {α : Type u} {β : Type v} {κ : Type w} [LinearOrder κ]

/-- The stable sort by a key: elements with equal keys keep their order. -/
def sortByKey (f : α → κ) (l : List α) : List α :=
  l.insertionSort fun a b => f a ≤ f b

private instance total_key (f : α → κ) : Std.Total fun a b => f a ≤ f b :=
  ⟨fun a b => le_total (f a) (f b)⟩

private instance trans_key (f : α → κ) : IsTrans α fun a b => f a ≤ f b :=
  ⟨fun _ _ _ => le_trans⟩

theorem sortByKey_perm (f : α → κ) (l : List α) : (sortByKey f l).Perm l :=
  List.perm_insertionSort _ l

@[simp] theorem mem_sortByKey {f : α → κ} {l : List α} {a : α} : a ∈ sortByKey f l ↔ a ∈ l :=
  (sortByKey_perm f l).mem_iff

@[simp] theorem sortByKey_eq_nil {f : α → κ} {l : List α} : sortByKey f l = [] ↔ l = [] := by
  constructor
  · intro h
    exact List.nil_perm.mp (h ▸ sortByKey_perm f l)
  · rintro rfl
    rfl

theorem pairwise_sortByKey (f : α → κ) (l : List α) :
    (sortByKey f l).Pairwise fun a b => f a ≤ f b :=
  List.pairwise_insertionSort _ l

/-- Distinct keys are strictly increasing after sorting. -/
theorem pairwise_lt_sortByKey {f : α → κ} {l : List α} (h : (l.map f).Nodup) :
    (sortByKey f l).Pairwise fun a b => f a < f b := by
  have hnd : ((sortByKey f l).map f).Nodup := ((sortByKey_perm f l).map f).nodup_iff.mpr h
  have hne : (sortByKey f l).Pairwise fun a b => f a ≠ f b := List.pairwise_map.mp hnd
  exact ((pairwise_sortByKey f l).and hne).imp fun hab => lt_of_le_of_ne hab.1 hab.2

/-- A list whose keys are in order already is left as it is. -/
theorem sortByKey_eq_self {f : α → κ} {l : List α} (h : l.Pairwise fun a b => f a ≤ f b) :
    sortByKey f l = l :=
  h.insertionSort_eq

/-- Elements in order, with no key below those in front of them, stay behind them. -/
theorem sortByKey_append {f : α → κ} {l m : List α} (h : ∀ a ∈ l, ∀ b ∈ m, f a ≤ f b)
    (hm : m.Pairwise fun a b => f a ≤ f b) : sortByKey f (l ++ m) = sortByKey f l ++ m := by
  have hinsert : ∀ (a : α) (s : List α), (∀ b ∈ m, f a ≤ f b) →
      (s ++ m).orderedInsert (fun a b => f a ≤ f b) a
        = s.orderedInsert (fun a b => f a ≤ f b) a ++ m := by
    intro a s ha
    induction s with
    | nil =>
      cases m with
      | nil => rfl
      | cons b m => exact if_pos (ha b List.mem_cons_self)
    | cons b s ih =>
      rw [List.cons_append, List.orderedInsert, List.orderedInsert]
      split_ifs
      · rfl
      · rw [ih, List.cons_append]
  induction l with
  | nil => exact sortByKey_eq_self hm
  | cons a l ih =>
    have ih := ih fun a' ha' => h a' (List.mem_cons_of_mem _ ha')
    calc sortByKey f (a :: l ++ m)
        = (sortByKey f (l ++ m)).orderedInsert (fun a b => f a ≤ f b) a := rfl
      _ = (sortByKey f l ++ m).orderedInsert (fun a b => f a ≤ f b) a := by rw [ih]
      _ = (sortByKey f l).orderedInsert (fun a b => f a ≤ f b) a ++ m :=
          hinsert a _ (h a List.mem_cons_self)
      _ = sortByKey f (a :: l) ++ m := rfl

/-- **Uniqueness of the sorted arrangement.** Where the key is injective, rearranging the
input does not change the result. -/
theorem sortByKey_eq_of_perm {f : α → κ} {l l' : List α} (hp : l.Perm l')
    (hinj : ∀ a ∈ l, ∀ b ∈ l, f a = f b → a = b) : sortByKey f l = sortByKey f l' := by
  refine List.Perm.eq_of_pairwise (fun a b ha hb hab hba => ?_) (pairwise_sortByKey f l)
    (pairwise_sortByKey f l') ((sortByKey_perm f l).trans (hp.trans (sortByKey_perm f l').symm))
  exact hinj a (mem_sortByKey.mp ha) b (hp.mem_iff.mpr (mem_sortByKey.mp hb)) (le_antisymm hab hba)

/-- A map that keeps the keys commutes with sorting. -/
theorem sortByKey_map {f : α → κ} {f' : β → κ} {g : α → β} (h : ∀ a, f' (g a) = f a)
    (l : List α) : sortByKey f' (l.map g) = (sortByKey f l).map g := by
  refine (List.map_insertionSort _ _ g l fun a _ b _ => ?_).symm
  rw [h, h]

/-- The element with the smaller key comes first. -/
theorem pair_sublist_sortByKey {f : α → κ} {l : List α} {a b : α} (ha : a ∈ l) (hb : b ∈ l)
    (h : f a < f b) : [a, b].Sublist (sortByKey f l) := by
  have hsorted := pairwise_sortByKey f l
  have hmem : b ∈ sortByKey f l := mem_sortByKey.mpr hb
  obtain ⟨l₁, l₂, hl⟩ := List.append_of_mem ((mem_sortByKey (f := f)).mpr ha)
  rw [hl] at hsorted hmem ⊢
  rcases List.mem_append.mp hmem with hb₁ | hb₂
  · -- before `a` no key is larger
    exact absurd h (not_lt.mpr ((List.pairwise_append.mp hsorted).2.2 b hb₁ a List.mem_cons_self))
  · rcases List.mem_cons.mp hb₂ with rfl | hb₂
    · exact absurd h (lt_irrefl _)
    · exact (List.cons_sublist_cons.mpr (List.singleton_sublist.mpr hb₂)).trans
        (List.sublist_append_right l₁ _)

/-- **Two elements with one key come out in the order they went in.** -/
theorem sortByKey_ne_swap {f : α → κ} {l : List α} {a b : α} (h : f a = f b)
    (hnd : (a :: b :: l).Nodup) : sortByKey f (a :: b :: l) ≠ sortByKey f (b :: a :: l) := by
  intro heq
  have hab : Dedup.Precedes (sortByKey f (a :: b :: l)) a b :=
    List.pair_sublist_insertionSort h.le (by simp)
  have hba : Dedup.Precedes (sortByKey f (b :: a :: l)) b a :=
    List.pair_sublist_insertionSort h.ge (by simp)
  rw [← heq] at hba
  exact hab.asymm ((sortByKey_perm f _).nodup_iff.mpr hnd) hba
