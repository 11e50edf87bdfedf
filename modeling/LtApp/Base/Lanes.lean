import LtApp.Base.Lts

/-!
# Lists drained side by side

Lists are fed one after another, each into a lane of its own, and the items come out of the lanes in any order, except
that each lane gives the front of what is left of it. Nothing is lost or repeated and each list comes out in its own
order (`Accounted`); where a lane gives only once those before it are empty, everything comes out in the order in
which it was fed (`Straight`).
-/

namespace LtApp

/-- The lists fed, what is left of each, and what has come out. -/
@[ext] structure Lanes (α : Type*) where
  fed  : List (List α) := []
  left : List (List α) := []
  out  : List α := []

namespace Lanes

variable {α : Type*}

inductive Act (α : Type*)
  | feed (l : List α)
  | take (j : Nat)

inductive Step : Lanes α → Act α → Lanes α → Prop
  | feed (q : Lanes α) (l : List α) : Step q (.feed l) { q with fed := q.fed ++ [l], left := q.left ++ [l] }
  | take {q : Lanes α} {j : Nat} {x : α} {l : List α} : q.left[j]? = some (x :: l) →
    Step q (.take j) { q with left := q.left.set j l, out := q.out ++ [x] }

def lts (α : Type*) : Lts (Lanes α) (Act α) := ⟨Step⟩

/-- The lanes before this one are empty. -/
def Act.First (q : Lanes α) : Act α → Prop
  | .feed _ => True
  | .take j => ∀ l ∈ q.left.take j, l = []

structure Accounted (q : Lanes α) : Prop where
  length : q.left.length = q.fed.length
  perm   : (q.out ++ q.left.flatten).Perm q.fed.flatten
  /-- What has come out of a lane is the front of its list, in order. -/
  order  : ∀ (k : Nat) (l : List α), q.fed[k]? = some l → ∃ d r, q.left[k]? = some r ∧ l = d ++ r ∧ d.Sublist q.out

def Straight (q : Lanes α) : Prop := q.out ++ q.left.flatten = q.fed.flatten

section
variable {q q' : Lanes α} {a : Act α} {j : Nat} {x : α} {l : List α}

theorem flatten_of_getElem? {ls : List (List α)} (h : ls[j]? = some l) :
    ls.flatten = (ls.take j).flatten ++ (l ++ (ls.drop (j + 1)).flatten) := by
  obtain ⟨hj, rfl⟩ := List.getElem?_eq_some_iff.1 h
  conv_lhs => rw [← List.take_append_drop j ls, List.drop_eq_getElem_cons hj]
  rw [List.flatten_append, List.flatten_cons]

theorem flatten_set {ls : List (List α)} (h : j < ls.length) :
    (ls.set j l).flatten = (ls.take j).flatten ++ (l ++ (ls.drop (j + 1)).flatten) := by
  rw [flatten_of_getElem? (j := j) (l := l) (by simp [h])]
  simp [List.take_set_of_le, List.drop_set_of_lt]

theorem Step.left_feed (h : Step q (.feed l) q') : q'.left = q.left ++ [l] := by
  cases h
  rfl

theorem step_accounted (hq : q.Accounted) (h : Step q a q') : q'.Accounted := by
  cases h with
  | feed l =>
    refine ⟨by simp [hq.length], ?_, fun k m hk => ?_⟩
    · simpa using hq.perm.append_right l
    · by_cases hlt : k < q.fed.length
      · rw [List.getElem?_append_left hlt] at hk
        obtain ⟨d, r, hr, hm, hd⟩ := hq.order k m hk
        exact ⟨d, r, by rw [List.getElem?_append_left (by rw [hq.length]; exact hlt), hr], hm, hd⟩
      · -- nothing of the new list has come out
        rw [List.getElem?_append_right (by omega)] at hk
        refine ⟨[], m, ?_, rfl, List.nil_sublist _⟩
        rw [List.getElem?_append_right (by rw [hq.length]; omega), hq.length]
        exact hk
  | @take j x l hj =>
    have hlen : j < q.left.length := (List.getElem?_eq_some_iff.1 hj).1
    refine ⟨by simp [hq.length], ?_, fun k m hk => ?_⟩
    · refine List.Perm.trans ?_ hq.perm
      simp only [flatten_set hlen, flatten_of_getElem? hj, List.append_assoc, List.cons_append, List.nil_append]
      apply List.Perm.append_left
      exact List.perm_middle.symm
    · obtain ⟨d, r, hr, rfl, hd⟩ := hq.order k m hk
      by_cases hkj : k = j
      · subst hkj
        obtain rfl : x :: l = r := Option.some.inj (hj.symm.trans hr)
        exact ⟨d ++ [x], l, by simp [hlen], by simp, hd.append (List.Sublist.refl _)⟩
      · exact ⟨d, r, by simp [Ne.symm hkj, hr], rfl, hd.trans (List.sublist_append_left _ _)⟩

theorem step_straight (hq : q.Straight) (ha : a.First q) (h : Step q a q') : q'.Straight := by
  unfold Straight at hq ⊢
  cases h with
  | feed l => simp [← hq]
  | @take j x l hj =>
    have hlen : j < q.left.length := (List.getElem?_eq_some_iff.1 hj).1
    have hnil : (q.left.take j).flatten = [] := List.flatten_eq_nil_iff.2 ha
    simpa [flatten_set hlen, flatten_of_getElem? hj, hnil] using hq

end

theorem accounted_nil : Accounted ({} : Lanes α) := ⟨rfl, .nil, by simp⟩

/-- Nothing is lost, repeated, or taken out of turn within its list. -/
theorem run_accounted {q : Lanes α} {as : List (Act α)} (h : (lts α).Run {} as q) : q.Accounted :=
  h.invariant (fun _ _ _ => step_accounted) accounted_nil

/-- Where each lane waits for those before it, nothing is taken out of turn at all. -/
theorem run_straight {q : Lanes α} {as : List (Act α)} (h : ((lts α).restrict fun q a => a.First q).Run {} as q) :
    q.Straight :=
  h.invariant_restrict (fun _ _ _ hq ha hs => step_straight hq ha hs) rfl

end Lanes
end LtApp
