import Mathlib.Data.List.Nodup
import Mathlib.Data.List.ReduceOption
import LtApp.Base.Lts

/-!
# Workers at one list

Several workers share a list of items. A worker with nothing in hand takes the item at the front, works on it, and
finishes it before it takes the next. Whatever the order in which the workers act, every item is in one place: in the
list, in one hand, or finished (`Booked`); and what has been done with an item, read off the deeds of all the workers,
is one story: it was taken, worked on, and finished, each item by itself (`Told`).
-/

namespace LtApp

/-- What a worker does with an item. -/
inductive Deed (ι : Type*)
  | take (x : ι)
  | work (x : ι)
  | finish (x : ι)
deriving DecidableEq, Repr

def Deed.item {ι : Type*} : Deed ι → ι
  | .take x | .work x | .finish x => x

structure Crew (ι : Type*) where
  waiting : List ι
  /-- What each worker has in hand. -/
  hands   : List (Option ι) := []
  /-- Oldest first. -/
  deeds   : List (Deed ι) := []

namespace Crew

variable {ι : Type*} {q q' : Crew ι} {x y : ι} {w : Nat} {items : List ι}

inductive Act
  | hire
  | take (w : Nat)
  | work (w : Nat)
  | finish (w : Nat)

inductive Step : Crew ι → Act → Crew ι → Prop
  | hire (q : Crew ι) : Step q .hire { q with hands := q.hands ++ [none] }
  | take {q : Crew ι} {w : Nat} {x : ι} {rest : List ι} : q.hands[w]? = some none → q.waiting = x :: rest →
    Step q (.take w) { waiting := rest, hands := q.hands.set w (some x), deeds := q.deeds ++ [.take x] }
  | work {q : Crew ι} {w : Nat} {x : ι} : q.hands[w]? = some (some x) →
    Step q (.work w) { q with deeds := q.deeds ++ [.work x] }
  | finish {q : Crew ι} {w : Nat} {x : ι} : q.hands[w]? = some (some x) →
    Step q (.finish w) { q with hands := q.hands.set w none, deeds := q.deeds ++ [.finish x] }

def lts (ι : Type*) : Lts (Crew ι) Act := ⟨Step⟩

def taken (ds : List (Deed ι)) : List ι := ds.filterMap fun | .take x => some x | _ => none

def finished (ds : List (Deed ι)) : List ι := ds.filterMap fun | .finish x => some x | _ => none

/-- The items in some hand. -/
def held (q : Crew ι) : List ι := q.hands.reduceOption

@[simp] theorem taken_append (ds es : List (Deed ι)) : taken (ds ++ es) = taken ds ++ taken es := List.filterMap_append
@[simp] theorem taken_take : taken [Deed.take x] = [x] := rfl
@[simp] theorem taken_work : taken [Deed.work x] = [] := rfl
@[simp] theorem taken_finish : taken [Deed.finish x] = [] := rfl
@[simp] theorem finished_append (ds es : List (Deed ι)) : finished (ds ++ es) = finished ds ++ finished es :=
  List.filterMap_append
@[simp] theorem finished_take : finished [Deed.take x] = [] := rfl
@[simp] theorem finished_work : finished [Deed.work x] = [] := rfl
@[simp] theorem finished_finish : finished [Deed.finish x] = [x] := rfl

/-! ## Every item is in one place -/

/-- An empty hand is filled. -/
theorem reduceOption_set_some {l : List (Option ι)} (h : l[w]? = some none) :
    (l.set w (some x)).reduceOption.Perm (x :: l.reduceOption) := by
  induction l generalizing w with
  | nil => simp at h
  | cons o l ih =>
    cases w with
    | zero =>
      obtain rfl : o = none := by simpa using h
      simp [List.reduceOption_cons_of_some]
    | succ w =>
      have hp := ih (w := w) (by simpa using h)
      cases o with
      | none => simpa using hp
      | some y =>
        simp only [List.set_cons_succ, List.reduceOption_cons_of_some]
        exact (hp.cons y).trans (.swap x y _)

/-- A hand is emptied. -/
theorem reduceOption_set_none {l : List (Option ι)} (h : l[w]? = some (some x)) :
    l.reduceOption.Perm (x :: (l.set w none).reduceOption) := by
  obtain ⟨hw, hx⟩ := List.getElem?_eq_some_iff.1 h
  have hback : (l.set w none).set w (some x) = l := by rw [List.set_set, ← hx, List.set_getElem_self]
  have hempty : (l.set w none)[w]? = some none := by simp [hw]
  simpa only [hback] using reduceOption_set_some (x := x) hempty

theorem mem_held : x ∈ q.held ↔ ∃ w : Nat, q.hands[w]? = some (some x) := by
  rw [held, List.reduceOption_mem_iff, List.mem_iff_getElem?]

/-- The items are taken in their order, and each is in the list, in hand or finished. -/
structure Booked (items : List ι) (q : Crew ι) : Prop where
  order : taken q.deeds ++ q.waiting = items
  parts : items.Perm (q.waiting ++ (q.held ++ finished q.deeds))

theorem Booked.step {a : Act} (h : Booked items q) (hs : Step q a q') : Booked items q' := by
  cases hs with
  | hire => exact ⟨h.order, by simpa [held, List.reduceOption_append] using h.parts⟩
  | work hx => exact ⟨by simpa using h.order, by simpa [held] using h.parts⟩
  | @take w x rest hw hr =>
    refine ⟨by simpa [hr] using h.order, h.parts.trans ?_⟩
    have hp : (q.hands.set w (some x)).reduceOption.Perm (x :: q.held) := reduceOption_set_some hw
    simp only [hr, finished_append, finished_take, List.append_nil]
    calc x :: rest ++ (q.held ++ finished q.deeds)
      _ |>.Perm (rest ++ (x :: q.held ++ finished q.deeds)) := by simpa using List.perm_middle.symm
      _ |>.Perm _ := .append_left _ (hp.symm.append_right _)
  | @finish w x hx =>
    refine ⟨by simpa using h.order, h.parts.trans (.append_left _ ?_)⟩
    have hp : q.held.Perm (x :: (q.hands.set w none).reduceOption) := reduceOption_set_none hx
    calc q.held ++ finished q.deeds
      _ |>.Perm (x :: ((q.hands.set w none).reduceOption ++ finished q.deeds)) := hp.append_right _
      _ |>.Perm ((q.hands.set w none).reduceOption ++ (finished q.deeds ++ [x])) := by
        have hlast : ([x] ++ ((q.hands.set w none).reduceOption ++ finished q.deeds)).Perm
            ((q.hands.set w none).reduceOption ++ finished q.deeds ++ [x]) := List.perm_append_comm
        simpa using hlast
      _ = _ := by simp [held]

theorem Booked.nodup (h : Booked items q) (hn : items.Nodup) :
    (q.waiting ++ (q.held ++ finished q.deeds)).Nodup := h.parts.nodup_iff.1 hn

theorem booked_start : Booked items { waiting := items } := ⟨rfl, by simp [held, finished]⟩

/-- An item is in one hand at most. -/
theorem Booked.hand_unique {v : Nat} (h : Booked items q) (hn : items.Nodup) (hw : q.hands[w]? = some (some x))
    (hv : q.hands[v]? = some (some x)) : w = v := by
  by_contra hwv
  have hp : q.held.Perm (x :: (q.hands.set w none).reduceOption) := reduceOption_set_none hw
  have hx : x ∈ (q.hands.set w none).reduceOption := by
    rw [List.reduceOption_mem_iff, List.mem_iff_getElem?]
    exact ⟨v, by rw [List.getElem?_set_ne hwv, hv]⟩
  have hnd : q.held.Nodup := (List.nodup_append.1 (List.nodup_append.1 (h.nodup hn)).2.1).1
  exact (List.nodup_cons.1 (hp.nodup_iff.1 hnd)).1 hx

/-! ## What has been done with an item -/

/-- It has been taken, and worked on. -/
def Begun (x : ι) (ds : List (Deed ι)) : Prop := ∃ n, ds = .take x :: List.replicate n (.work x)

theorem Begun.work {ds : List (Deed ι)} (h : Begun x ds) : Begun x (ds ++ [.work x]) := by
  obtain ⟨n, rfl⟩ := h
  exact ⟨n + 1, by simp [List.replicate_succ']⟩

section
variable [DecidableEq ι]

/-- The deeds that are about an item. -/
def about (x : ι) (ds : List (Deed ι)) : List (Deed ι) := ds.filter fun d => d.item = x

@[simp] theorem about_append (ds es : List (Deed ι)) : about x (ds ++ es) = about x ds ++ about x es := by simp [about]

theorem about_self {d : Deed ι} (h : d.item = x) : about x [d] = [d] := by simp [about, h]

theorem about_ne {d : Deed ι} (h : d.item ≠ x) : about x [d] = [] := by simp [about, h]

/-- The deeds about each item, by the place where it is. -/
structure Told (q : Crew ι) : Prop where
  unread : ∀ x ∈ q.waiting, about x q.deeds = []
  begun  : ∀ x ∈ q.held, Begun x (about x q.deeds)
  ended  : ∀ x ∈ finished q.deeds, ∃ ds, Begun x ds ∧ about x q.deeds = ds ++ [.finish x]

/-- A deed about another item leaves the story of this one. -/
theorem about_snoc_ne {d : Deed ι} {ds : List (Deed ι)} (h : d.item ≠ x) : about x (ds ++ [d]) = about x ds := by
  rw [about_append, about_ne h, List.append_nil]

theorem about_snoc_self {d : Deed ι} {ds : List (Deed ι)} (h : d.item = x) :
    about x (ds ++ [d]) = about x ds ++ [d] := by rw [about_append, about_self h]

theorem Told.step {a : Act} (h : Told q) (hb : Booked items q) (hn : items.Nodup) (hs : Step q a q') : Told q' := by
  have hnd := List.nodup_append.1 (hb.nodup hn)
  have hnd' := List.nodup_append.1 hnd.2.1
  have hwait : ∀ {x y}, x ∈ q.waiting → y ∈ q.held → y ≠ x := fun hx hy he =>
    hnd.2.2 _ hx _ (List.mem_append_left _ hy) he.symm
  have hover : ∀ {x y}, x ∈ finished q.deeds → y ∈ q.held → y ≠ x := fun hx hy he => hnd'.2.2 _ hy _ hx he
  cases hs with
  | hire =>
    refine ⟨h.unread, fun x hx => h.begun x ?_, h.ended⟩
    simpa [held, List.reduceOption_append] using hx
  | @work w y hy =>
    have hmem : y ∈ q.held := mem_held.2 ⟨w, hy⟩
    constructor
    case unread =>
      intro x hx
      rw [about_snoc_ne (d := .work y) (hwait hx hmem)]
      exact h.unread x hx
    case begun =>
      intro x hx
      by_cases hyx : y = x
      · subst hyx
        rw [about_snoc_self (x := y) (d := .work y) rfl]
        exact (h.begun y hx).work
      · rw [about_snoc_ne (d := .work y) hyx]
        exact h.begun x hx
    case ended =>
      intro x hx
      have hx : x ∈ finished q.deeds := by simpa using hx
      rw [about_snoc_ne (d := .work y) (hover hx hmem)]
      exact h.ended x hx
  | @take w y rest hw hr =>
    obtain ⟨hrest, hheld, hfin⟩ : y ∉ rest ∧ y ∉ q.held ∧ y ∉ finished q.deeds := by
      have hd := hb.nodup hn
      rw [hr, List.cons_append, List.nodup_cons] at hd
      simpa [List.mem_append] using hd.1
    have hp : (q.hands.set w (some y)).reduceOption.Perm (y :: q.held) := reduceOption_set_some hw
    constructor
    case unread =>
      intro x hx
      rw [about_snoc_ne (d := .take y) fun (he : y = x) => hrest (he ▸ hx)]
      exact h.unread x (by rw [hr]; exact List.mem_cons_of_mem _ hx)
    case begun =>
      intro x hx
      rcases List.mem_cons.1 (hp.mem_iff.1 hx) with rfl | hx
      · rw [about_snoc_self (x := x) (d := .take x) rfl, h.unread x (by rw [hr]; exact List.mem_cons_self)]
        exact ⟨0, rfl⟩
      · rw [about_snoc_ne (d := .take y) fun (he : y = x) => hheld (he ▸ hx)]
        exact h.begun x hx
    case ended =>
      intro x hx
      have hx : x ∈ finished q.deeds := by simpa using hx
      rw [about_snoc_ne (d := .take y) fun (he : y = x) => hfin (he ▸ hx)]
      exact h.ended x hx
  | @finish w y hy =>
    have hmem : y ∈ q.held := mem_held.2 ⟨w, hy⟩
    have hp : q.held.Perm (y :: (q.hands.set w none).reduceOption) := reduceOption_set_none hy
    constructor
    case unread =>
      intro x hx
      rw [about_snoc_ne (d := .finish y) (hwait hx hmem)]
      exact h.unread x hx
    case begun =>
      intro x (hx : x ∈ (q.hands.set w none).reduceOption)
      have hyx : y ≠ x := fun he => (List.nodup_cons.1 (hp.nodup_iff.1 hnd'.1)).1 (he ▸ hx)
      rw [about_snoc_ne (d := .finish y) hyx]
      exact h.begun x (hp.mem_iff.2 (List.mem_cons_of_mem _ hx))
    case ended =>
      intro x hx
      rw [finished_append, finished_finish, List.mem_append, List.mem_singleton] at hx
      rcases hx with hx | rfl
      · rw [about_snoc_ne (d := .finish y) (hover hx hmem)]
        exact h.ended x hx
      · rw [about_snoc_self (x := x) (d := .finish x) rfl]
        exact ⟨_, h.begun x hmem, rfl⟩

theorem told_start : Told ({ waiting := items } : Crew ι) :=
  ⟨fun _ _ => rfl, fun x hx => by simp [held] at hx, fun x hx => by simp [finished] at hx⟩

/-- **Every run keeps the books.** -/
theorem run_told {as : List Act} (h : (lts ι).Run q as q') (hn : items.Nodup) (hb : Booked items q) (ht : Told q) :
    Booked items q' ∧ Told q' := by
  refine h.invariant (P := fun q => Booked items q ∧ Told q) ?_ ⟨hb, ht⟩
  intro r a r' hr hs
  exact ⟨hr.1.step hs, hr.2.step hr.1 hn hs⟩

end

end Crew
end LtApp
