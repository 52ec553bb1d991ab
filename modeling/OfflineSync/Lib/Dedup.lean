import Mathlib.Data.List.Nodup
import Mathlib.Data.List.Basic

/-!
# Append-only lists without repetition

A list that only grows at its end, and never takes in a key it already holds: `addNew` for
one key, `addAll` for a batch. `Precedes l x y` is "`x` stands before `y` in `l`", the order
such a list records.

The result the rest is for is `Closed.addAll`. A list is *closed* under a relation `R` when
every key in it stands after all its `R`-predecessors; a batch whose predecessors are in the
list, or earlier in the batch, keeps the list closed, whatever part of the batch the list
already holds. `Closed.filter_isPrefix` reads closure under the order of another list as a
statement about order and completeness at once: the common keys are an initial segment of it.
-/

universe u v

variable {κ : Type u}

namespace Dedup

/-! ### The order a list records -/

/-- `x` stands somewhere before `y` in `l`. -/
def Precedes (l : List κ) (x y : κ) : Prop :=
  [x, y].Sublist l

instance [DecidableEq κ] (l : List κ) (x y : κ) : Decidable (Precedes l x y) :=
  inferInstanceAs (Decidable ([x, y].Sublist l))

theorem Precedes.mem_left {l : List κ} {x y : κ} (h : Precedes l x y) : x ∈ l :=
  h.subset List.mem_cons_self

theorem Precedes.mem_right {l : List κ} {x y : κ} (h : Precedes l x y) : y ∈ l :=
  h.subset (List.mem_cons_of_mem _ List.mem_cons_self)

theorem Precedes.sublist {l l' : List κ} {x y : κ} (h : Precedes l x y) (hl : l.Sublist l') :
    Precedes l' x y :=
  List.Sublist.trans h hl

theorem Precedes.append_right {l : List κ} {x y : κ} (h : Precedes l x y) (m : List κ) :
    Precedes (l ++ m) x y :=
  h.sublist (List.sublist_append_left l m)

theorem precedes_append_of_mem {l m : List κ} {x y : κ} (hx : x ∈ l) (hy : y ∈ m) :
    Precedes (l ++ m) x y :=
  List.Sublist.append (List.singleton_sublist.mpr hx) (List.singleton_sublist.mpr hy)

/-- The pairs a concatenation puts in order. -/
theorem precedes_append_iff {l m : List κ} {x y : κ} :
    Precedes (l ++ m) x y ↔ Precedes l x y ∨ (x ∈ l ∧ y ∈ m) ∨ Precedes m x y := by
  constructor
  · intro h
    obtain ⟨l₁, l₂, heq, h₁, h₂⟩ := List.sublist_append_iff.mp h
    -- the first list holds none of the pair, its first half, or all of it
    match l₁, heq with
    | [], heq =>
      obtain rfl : l₂ = [x, y] := by simpa using heq.symm
      exact .inr (.inr h₂)
    | [a], heq =>
      simp only [List.cons_append, List.nil_append, List.cons.injEq] at heq
      obtain ⟨rfl, rfl⟩ := heq
      exact .inr (.inl ⟨List.singleton_sublist.mp h₁, List.singleton_sublist.mp h₂⟩)
    | a :: b :: rest, heq =>
      simp only [List.cons_append, List.cons.injEq] at heq
      obtain ⟨rfl, rfl, hnil⟩ := heq
      obtain ⟨rfl, rfl⟩ := List.append_eq_nil_iff.mp hnil.symm
      exact .inl h₁
  · rintro (h | ⟨hx, hy⟩ | h)
    · exact h.append_right m
    · exact precedes_append_of_mem hx hy
    · exact h.sublist (List.sublist_append_right l m)

theorem precedes_cons_iff {l : List κ} {a x y : κ} :
    Precedes (a :: l) x y ↔ (x = a ∧ y ∈ l) ∨ Precedes l x y := by
  have hnil : ¬ Precedes [a] x y := fun h => by simpa using h.length_le
  simpa [hnil, List.mem_singleton] using precedes_append_iff (l := [a]) (m := l) (x := x) (y := y)

/-- In a repetition-free list, what precedes a key of an initial segment is in that segment. -/
theorem Precedes.of_append {l m : List κ} {x y : κ} (h : Precedes (l ++ m) x y)
    (hnd : (l ++ m).Nodup) (hy : y ∈ l) : Precedes l x y := by
  have hym : y ∉ m := fun hm => (List.nodup_append.mp hnd).2.2 y hy y hm rfl
  rcases precedes_append_iff.mp h with h | ⟨-, hm⟩ | h
  · exact h
  · exact absurd hm hym
  · exact absurd h.mem_right hym

/-- In a repetition-free list, what follows a key of a final segment is in that segment. -/
theorem Precedes.of_append_left {l m : List κ} {x y : κ} (h : Precedes (l ++ m) x y)
    (hnd : (l ++ m).Nodup) (hx : x ∈ m) : Precedes m x y := by
  have hxl : x ∉ l := fun hl => (List.nodup_append.mp hnd).2.2 x hl x hx rfl
  rcases precedes_append_iff.mp h with h | ⟨hl, -⟩ | h
  · exact absurd h.mem_left hxl
  · exact absurd hl hxl
  · exact h

/-- The order of a repetition-free list is asymmetric. -/
theorem Precedes.asymm {l : List κ} {x y : κ} (hnd : l.Nodup) (h : Precedes l x y) :
    ¬ Precedes l y x := by
  induction l with
  | nil => exact absurd h.mem_left List.not_mem_nil
  | cons a l ih =>
    obtain ⟨ha, hl⟩ := List.nodup_cons.mp hnd
    intro h'
    rcases precedes_cons_iff.mp h with ⟨rfl, hy⟩ | hxy
    · rcases precedes_cons_iff.mp h' with ⟨rfl, -⟩ | hyx
      · exact ha hy
      · exact ha hyx.mem_right
    · rcases precedes_cons_iff.mp h' with ⟨rfl, -⟩ | hyx
      · exact ha hxy.mem_right
      · exact ih hl hxy hyx

/-- Positions decide the order: what stands at a smaller index precedes. -/
theorem precedes_of_getElem? {l : List κ} {x y : κ} {i j : ℕ} (hij : i < j)
    (hx : l[i]? = some x) (hy : l[j]? = some y) : Precedes l x y := by
  have hsplit : l = l.take j ++ l.drop j := (List.take_append_drop j l).symm
  rw [hsplit]
  refine precedes_append_of_mem ?_ ?_
  · exact List.mem_of_getElem? (i := i) (by rw [List.getElem?_take_of_lt hij, hx])
  · exact List.mem_of_getElem? (i := 0) (by rw [List.getElem?_drop, Nat.add_zero, hy])

theorem Precedes.map {α : Type v} {l : List α} {a b : α} (h : Precedes l a b) (f : α → κ) :
    Precedes (l.map f) (f a) (f b) :=
  List.Sublist.map f h

/-- The order of the images is the order of the elements. -/
theorem precedes_map_iff {α : Type v} {f : α → κ} {l : List α} {x y : κ} :
    Precedes (l.map f) x y ↔ ∃ a b, Precedes l a b ∧ f a = x ∧ f b = y := by
  constructor
  · intro h
    obtain ⟨l', hl', heq⟩ := List.sublist_map_iff.mp h
    obtain ⟨a, m, rfl, hx, hm⟩ := List.map_eq_cons_iff.mp heq.symm
    obtain ⟨b, m, rfl, hy, hm⟩ := List.map_eq_cons_iff.mp hm
    obtain rfl := List.map_eq_nil_iff.mp hm
    exact ⟨a, b, hl', hx, hy⟩
  · rintro ⟨a, b, h, rfl, rfl⟩
    exact h.map f

/-- Leaving elements out keeps the order of the others. -/
theorem Precedes.filter {l : List κ} {x y : κ} (h : Precedes l x y) {p : κ → Bool}
    (hx : p x = true) (hy : p y = true) : Precedes (l.filter p) x y := by
  have hsub := List.Sublist.filter p h
  rwa [List.filter_cons_of_pos hx, List.filter_cons_of_pos hy, List.filter_nil] at hsub

/-- Of a list whose keys are distinct, the elements with the keys of a sublist are that
sublist. -/
theorem filter_mem_map_eq_of_sublist [DecidableEq κ] {α : Type v} {f : α → κ} {a l : List α}
    (h : a.Sublist l) (hl : (l.map f).Nodup) : l.filter (fun e => f e ∈ a.map f) = a := by
  have ha : a.filter (fun e => f e ∈ a.map f) = a :=
    List.filter_eq_self.mpr fun e he => by simpa using ⟨e, he, rfl⟩
  have hsub : a.Sublist (l.filter fun e => f e ∈ a.map f) := by
    have := h.filter fun e => f e ∈ a.map f
    rwa [ha] at this
  refine (hsub.eq_of_length_le ?_).symm
  have hnd : ((l.filter fun e => f e ∈ a.map f).map f).Nodup :=
    hl.sublist (List.filter_sublist.map f)
  have hsubset : (l.filter fun e => f e ∈ a.map f).map f ⊆ a.map f := by
    intro x hx
    obtain ⟨e, he, rfl⟩ := List.mem_map.mp hx
    exact of_decide_eq_true (List.mem_filter.mp he).2
  simpa using hnd.length_le_of_subset hsubset

/-- Elements of a list with distinct keys form an initial segment of it as soon as their keys
do. -/
theorem isPrefix_of_map_isPrefix {α : Type v} {f : α → κ} {a l : List α}
    (h : a.map f <+: l.map f) (hl : (l.map f).Nodup) (ha : ∀ e ∈ a, e ∈ l) : a <+: l := by
  have hlen : a.length ≤ l.length := by simpa using h.length_le
  refine List.prefix_iff_getElem.mpr ⟨hlen, fun i hi => ?_⟩
  refine List.inj_on_of_nodup_map hl (ha _ (List.getElem_mem hi)) (List.getElem_mem _) ?_
  have hget := h.getElem (show i < (a.map f).length by simpa using hi)
  simpa using hget

/-! ### Growing without repetition -/

variable [DecidableEq κ]

/-- Add a key at the end unless it is there already. -/
def addNew (l : List κ) (x : κ) : List κ :=
  if x ∈ l then l else l ++ [x]

/-- Add a batch of keys, one after the other. -/
def addAll (l : List κ) (xs : List κ) : List κ :=
  xs.foldl addNew l

@[simp] theorem addAll_nil (l : List κ) : addAll l [] = l := rfl

@[simp] theorem addAll_cons (l : List κ) (x : κ) (xs : List κ) :
    addAll l (x :: xs) = addAll (addNew l x) xs := rfl

theorem mem_addNew {l : List κ} {x y : κ} : y ∈ addNew l x ↔ y ∈ l ∨ y = x := by
  unfold addNew
  split_ifs with h
  · exact ⟨.inl, fun hy => hy.elim id fun hyx => hyx ▸ h⟩
  · simp

theorem isPrefix_addNew (l : List κ) (x : κ) : l <+: addNew l x := by
  unfold addNew
  split_ifs
  · exact List.prefix_rfl
  · exact List.prefix_append l [x]

theorem nodup_addNew {l : List κ} (h : l.Nodup) (x : κ) : (addNew l x).Nodup := by
  unfold addNew
  split_ifs with hx
  · exact h
  · rw [List.nodup_append]
    refine ⟨h, List.nodup_singleton x, fun a ha b hb hab => hx ?_⟩
    rw [← List.mem_singleton.mp hb, ← hab]
    exact ha

theorem mem_addAll {l xs : List κ} {y : κ} : y ∈ addAll l xs ↔ y ∈ l ∨ y ∈ xs := by
  induction xs generalizing l with
  | nil => simp
  | cons x xs ih => rw [addAll_cons, ih, mem_addNew, List.mem_cons, or_assoc]

theorem isPrefix_addAll (l xs : List κ) : l <+: addAll l xs := by
  induction xs generalizing l with
  | nil => exact List.prefix_rfl
  | cons x xs ih => exact (isPrefix_addNew l x).trans (ih _)

theorem nodup_addAll {l : List κ} (h : l.Nodup) (xs : List κ) : (addAll l xs).Nodup := by
  induction xs generalizing l with
  | nil => exact h
  | cons x xs ih => exact ih (nodup_addNew h x)

/-- A key that continues a covered initial segment of `s` leads to an initial segment of `s`. -/
theorem isPrefix_addNew_of_isPrefix {s l p : List κ} {x : κ} (hs : s.Nodup) (hl : l <+: s)
    (hp : p ++ [x] <+: s) (hpl : p ⊆ l) : addNew l x <+: s := by
  unfold addNew
  split_ifs with hx
  · exact hl
  · have hps : p <+: s := (List.prefix_append p [x]).trans hp
    have hle : p.length ≤ l.length := (hs.sublist hps.sublist).length_le_of_subset hpl
    have hpl' : p <+: l := List.prefix_of_prefix_length_le hps hl hle
    have hge : l.length ≤ p.length := by
      by_contra hlt
      have hpx : p ++ [x] <+: l := List.prefix_of_prefix_length_le hp hl (by simp; omega)
      exact hx (hpx.subset (by simp))
    rw [← hpl'.eq_of_length (Nat.le_antisymm hle hge)]
    exact hp

/-- **A list that copies `s` goes on copying it**: the batch may start anywhere in what the list has
already. -/
theorem isPrefix_addAll_of_isPrefix {s l p xs : List κ} (hs : s.Nodup) (hl : l <+: s)
    (hp : p ++ xs <+: s) (hpl : p ⊆ l) : addAll l xs <+: s := by
  induction xs generalizing l p with
  | nil => exact hl
  | cons x xs ih =>
    rw [List.append_cons] at hp
    have hnew := isPrefix_addNew_of_isPrefix hs hl ((List.prefix_append _ xs).trans hp) hpl
    refine ih hnew hp fun y hy => mem_addNew.mpr ?_
    simpa using (List.mem_append.mp hy).imp_left (@hpl y)

/-! ### Closed lists -/

/-- Every key of `l` stands after all its `R`-predecessors. -/
def Closed (R : κ → κ → Prop) (l : List κ) : Prop :=
  ∀ x y, R x y → y ∈ l → Precedes l x y

variable {R : κ → κ → Prop}

theorem Closed.addNew {l : List κ} (h : Closed R l) {y : κ} (hy : ∀ x, R x y → x ∈ l) :
    Closed R (addNew l y) := by
  unfold Dedup.addNew
  split_ifs with hmem
  · exact h
  · intro x z hR hz
    rcases List.mem_append.mp hz with hz | hz
    · exact (h x z hR hz).append_right [y]
    · obtain rfl := List.mem_singleton.mp hz
      exact precedes_append_of_mem (hy x hR) List.mem_cons_self

/-- **A causally complete batch keeps a list closed**: if every predecessor of a key of the
batch is in the list or earlier in the batch, the list grown by the batch is closed again. -/
theorem Closed.addAll {l xs : List κ} (h : Closed R l) (hxs : xs.Nodup)
    (hpred : ∀ x y, R x y → y ∈ xs → x ∈ l ∨ Precedes xs x y) : Closed R (addAll l xs) := by
  induction xs generalizing l with
  | nil => exact h
  | cons a xs ih =>
    obtain ⟨ha, hxs⟩ := List.nodup_cons.mp hxs
    refine ih (h.addNew fun x hR => ?_) hxs fun x y hR hy => ?_
    · -- nothing of the batch stands before its first key
      refine (hpred x a hR List.mem_cons_self).resolve_right fun hp => ha ?_
      rcases precedes_cons_iff.mp hp with ⟨-, hmem⟩ | hp
      · exact hmem
      · exact hp.mem_right
    · rw [mem_addNew]
      rcases hpred x y hR (List.mem_cons_of_mem _ hy) with hl | hp
      · exact .inl (.inl hl)
      · rcases precedes_cons_iff.mp hp with ⟨rfl, -⟩ | hp
        · exact .inl (.inr rfl)
        · exact .inr hp

/-- **Order and completeness at once.** If a list is closed under the order of `a`, the keys
it has in common with `a` are, in its own order, an initial segment of `a`. -/
theorem Closed.filter_isPrefix {a l : List κ} (ha : a.Nodup) (hl : l.Nodup)
    (h : Closed (Precedes a) l) : (l.filter (· ∈ a)) <+: a := by
  induction a generalizing l with
  | nil => simp
  | cons k a ih =>
    obtain ⟨hka, ha⟩ := List.nodup_cons.mp ha
    by_cases hk : k ∈ l
    · obtain ⟨l₁, l₂, rfl⟩ := List.append_of_mem hk
      -- every later key of `a` needs `k` before it, so it stands in `l₂`
      have hafter : ∀ y ∈ a, y ∈ l₁ ++ k :: l₂ → y ∈ l₂ := by
        intro y hy hyl
        have hp := h k y (precedes_cons_iff.mpr (.inl ⟨rfl, hy⟩)) hyl
        have hp := hp.of_append_left hl List.mem_cons_self
        rcases precedes_cons_iff.mp hp with ⟨-, hy⟩ | hp
        · exact hy
        · exact hp.mem_right
      have hnd := List.nodup_append.mp hl
      have hnone : l₁.filter (· ∈ k :: a) = [] := List.filter_eq_nil_iff.mpr fun y hy hmem => by
        rcases List.mem_cons.mp (of_decide_eq_true hmem) with rfl | hya
        · exact hnd.2.2 _ hy _ List.mem_cons_self rfl
        · have hy₂ := hafter y hya (List.mem_append_left _ hy)
          exact hnd.2.2 _ hy _ (List.mem_cons_of_mem _ hy₂) rfl
      have hk₂ : k ∉ l₂ := (List.nodup_cons.mp hnd.2.1).1
      have htail : l₂.filter (· ∈ k :: a) = l₂.filter (· ∈ a) :=
        List.filter_congr fun y hy => by
          have hne : y ≠ k := fun hyk => hk₂ (hyk ▸ hy)
          simp [List.mem_cons, hne]
      have hclosed : Closed (Precedes a) l₂ := by
        intro x y hxy hy
        have hp := h x y (precedes_cons_iff.mpr (.inr hxy))
          (List.mem_append_right _ (List.mem_cons_of_mem _ hy))
        have hx₂ := hafter x hxy.mem_left hp.mem_left
        have hp := hp.of_append_left hl (List.mem_cons_of_mem _ hx₂)
        rcases precedes_cons_iff.mp hp with ⟨rfl, -⟩ | hp
        · exact absurd hx₂ hk₂
        · exact hp
      rw [List.filter_append, hnone, List.nil_append, List.filter_cons_of_pos (by simp), htail]
      obtain ⟨m, hm⟩ := ih ha (List.nodup_cons.mp hnd.2.1).2 hclosed
      exact ⟨m, by rw [List.cons_append, hm]⟩
    · -- without the first key of `a` the list has none of them
      have hnone : l.filter (· ∈ k :: a) = [] := List.filter_eq_nil_iff.mpr fun y hy hmem => by
        rcases List.mem_cons.mp (of_decide_eq_true hmem) with rfl | hya
        · exact hk hy
        · exact hk (h k y (precedes_cons_iff.mpr (.inl ⟨rfl, hya⟩)) hy).mem_left
      rw [hnone]
      exact List.nil_prefix

end Dedup
