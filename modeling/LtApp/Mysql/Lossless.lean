import Mathlib.Data.List.Forall2
import Mathlib.Data.List.TakeWhile
import LtApp.Mysql.Rows

/-!
# What a reported result says of the result set

A value is reported as the `std::string` made of its `char*`, a null pointer as the text `NULL`. So two result sets that
differ only in where they have NULL and where the text `NULL` are reported alike; the code means them to. Otherwise the
headers and the rows reported tell result sets apart, if there is a row to parse the headers at and no value has a zero
byte.
-/

namespace LtApp.Mysql

/-- The text a NULL is reported as. -/
def nullText : Bytes := [78, 85, 76, 76]

/-- The values are equal, or one is NULL and the other the text `NULL`. -/
def SameValue (v w : Option Bytes) : Prop :=
  v = w ∨ (v = none ∧ w = some nullText) ∨ (v = some nullText ∧ w = none)

def SameRows (rows rows' : List Row) : Prop := List.Forall₂ (List.Forall₂ SameValue) rows rows'

/-- No value holds a zero byte. -/
def NoZero (rows : List Row) : Prop := ∀ row ∈ rows, ∀ v ∈ row, ∀ s, v = some s → (0 : UInt8) ∉ s

theorem cStr_of_noZero {s : Bytes} (h : (0 : UInt8) ∉ s) : cStr s = s := by
  unfold cStr
  rw [List.takeWhile_eq_self_iff]
  intro b hb
  simp only [bne_iff_ne, ne_eq]
  rintro rfl
  exact h hb

/-- Without a zero byte a value is reported in full. -/
theorem cellText_of_noZero {v : Option Bytes} (h : ∀ s, v = some s → (0 : UInt8) ∉ s) : cellText v = v.getD nullText := by
  cases v with
  | none => rfl
  | some s => exact cStr_of_noZero (h s rfl)

theorem sameValue_iff {v w : Option Bytes} : SameValue v w ↔ v.getD nullText = w.getD nullText := by
  constructor
  · rintro (rfl | ⟨rfl, rfl⟩ | ⟨rfl, rfl⟩) <;> rfl
  · intro h
    cases v with
    | none =>
      cases w with
      | none => exact .inl rfl
      | some w =>
        obtain rfl : nullText = w := h
        exact .inr (.inl ⟨rfl, rfl⟩)
    | some v =>
      cases w with
      | none =>
        obtain rfl : v = nullText := h
        exact .inr (.inr ⟨rfl, rfl⟩)
      | some w =>
        obtain rfl : v = w := h
        exact .inl rfl

/-- Lists with equal images agree place by place. -/
theorem forall₂_of_map_eq {α β : Type*} {f : α → β} {l l' : List α} (h : l.map f = l'.map f) :
    List.Forall₂ (fun x y => f x = f y) l l' := by
  have heq : List.Forall₂ Eq (l.map f) (l'.map f) := by
    rw [h]
    exact List.forall₂_refl _
  rwa [List.forall₂_map_left_iff, List.forall₂_map_right_iff] at heq

theorem map_cellText_of_noZero {rows : List Row} (h : NoZero rows) :
    rows.map (fun row => row.map cellText) = rows.map (fun row => row.map (·.getD nullText)) := by
  apply List.map_congr_left
  intro row hrow
  apply List.map_congr_left
  intro v hv
  exact cellText_of_noZero (h row hrow v hv)

/-- Rows reported alike hold the same values. -/
theorem sameRows_of_reported {rows rows' : List Row} (h : NoZero rows) (h' : NoZero rows')
    (heq : rows.map (fun row => row.map cellText) = rows'.map (fun row => row.map cellText)) : SameRows rows rows' := by
  rw [map_cellText_of_noZero h, map_cellText_of_noZero h'] at heq
  refine (forall₂_of_map_eq heq).imp fun row row' hrow => ?_
  exact (forall₂_of_map_eq hrow).imp fun v w hvw => sameValue_iff.2 hvw

/-! ## Two sessions -/

/-- Every row has a value for every column. -/
def Rectangular (r : MysqlRes) (rows : List Row) : Prop := ∀ row ∈ rows, row.length = r.fields.length

/-- **Result sets reported alike are alike**, up to NULL and the text `NULL`: if there is a row, and no value holds a zero
byte. -/
theorem result_determined (client client' : Bool) (errNo errNo' : Int) (st st' : State) (opt opt' : MysqlOptions)
    (ops ops' : List Op) (c c' : Conn) (h : lts.Run (opened client errNo st opt) ops c)
    (h' : lts.Run (opened client' errNo' st' opt') ops' c') (q₀ q₀' q q' : Session) (r r' : MysqlRes)
    (rows rows' : List Row) (hd : Delivered c.log q₀ r rows q) (hd' : Delivered c'.log q₀' r' rows' q')
    (hm : Rectangular r rows) (hm' : Rectangular r' rows') (hz : NoZero rows) (hz' : NoZero rows') (hne : rows ≠ [])
    (hcols : q.columNames = q'.columNames) (hresults : q.results = q'.results) :
    r.fields = r'.fields ∧ SameRows rows rows' := by
  obtain ⟨-, hq, hfields, -⟩ := delivered_reports h hd
  obtain ⟨-, hq', hfields', -⟩ := delivered_reports h' hd'
  have htext : q.results = rows.map (fun row => row.map cellText) :=
    hq.trans (List.map_congr_left fun row hrow => rowText_eq (hm row hrow))
  have htext' : q'.results = rows'.map (fun row => row.map cellText) :=
    hq'.trans (List.map_congr_left fun row hrow => rowText_eq (hm' row hrow))
  have heq : rows.map (fun row => row.map cellText) = rows'.map (fun row => row.map cellText) := by
    rw [← htext, ← htext', hresults]
  have hne' : rows' ≠ [] := by
    rintro rfl
    exact hne (List.map_eq_nil_iff.1 heq)
  refine ⟨?_, sameRows_of_reported hz hz' heq⟩
  rw [← hfields hne, ← hfields' hne', hcols]

/-- One column. -/
def oneColumn : MysqlRes := ⟨0, [[97]]⟩

/-- A query with one row of one value. -/
def selectOne (v : Option Bytes) : List Op :=
  [.syncConnect { ret := true },
   .startQuery { id := 3, query := [1] } [{}, {}, { res := some oneColumn }, { row := some [v] }, {}, {}, { numRows := 1 }, {}]]

/-- What the session reports. -/
def reportOne (v : Option Bytes) : Session :=
  { id := 3, query := [1], resultCount := 1, columNames := [[97]], results := [[cellText v]] }

theorem selectOne_delivered (v : Option Bytes) :
    ∃ c, lts.Run (opened true 0 .stateNone {}) (selectOne v) c ∧
      Delivered c.log { id := 3, query := [1] } oneColumn [[v]] (reportOne v) := by
  refine ⟨_, .cons ⟨trivial, rfl⟩ (.single ⟨trivial, rfl⟩), ⟨rfl, rfl⟩, [], _, some 1, rfl, ?_⟩
  rfl

theorem result_determined_run :
    ∃ c c', lts.Run (opened true 0 .stateNone {}) (selectOne none) c ∧
      lts.Run (opened true 0 .stateNone {}) (selectOne (some nullText)) c' ∧ SameRows [[none]] [[some nullText]] := by
  obtain ⟨c, hr, hd⟩ := selectOne_delivered none
  obtain ⟨c', hr', hd'⟩ := selectOne_delivered (some nullText)
  have hrect : ∀ v, Rectangular oneColumn [[v]] := by simp [Rectangular, oneColumn]
  have hz : NoZero [[none]] := by simp [NoZero]
  have hz' : NoZero [[some nullText]] := by simp [NoZero, nullText]
  exact ⟨c, c', hr, hr', (result_determined _ _ _ _ _ _ _ _ _ _ c c' hr hr' _ _ _ _ _ _ _ _ hd hd' (hrect _) (hrect _)
    hz hz' (by simp) rfl rfl).2⟩

/-- **NULL is reported as the text `NULL`**: two sessions that report the same have read different result sets. -/
theorem null_reported_as_text :
    ∃ c c' q₀ q r rows rows', lts.Run (opened true 0 .stateNone {}) (selectOne none) c ∧
      lts.Run (opened true 0 .stateNone {}) (selectOne (some nullText)) c' ∧
      Delivered c.log q₀ r rows q ∧ Delivered c'.log q₀ r rows' q ∧ q.code = 0 ∧ rows ≠ rows' := by
  obtain ⟨c, hr, hd⟩ := selectOne_delivered none
  obtain ⟨c', hr', hd'⟩ := selectOne_delivered (some nullText)
  exact ⟨c, c', _, _, _, _, _, hr, hr', hd, hd', rfl, by decide⟩

end LtApp.Mysql
