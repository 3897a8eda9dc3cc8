import Pgx.Pgtype.NestedSlice

/-!
# What arrays are scanned into

A target makes room for as many elements as the dimensions say.
-/
namespace Pgx.Pgtype

open Pgx.Go List

variable {dims : List ArrayDimension} {p : Platform}

inductive ArrayTarget where
  /-- `Array[T]` -/
  | array
  /-- `FlatArray[T]` and a slice whose elements are no slices -/
  | flatArray
  /-- A slice nested this deep -/
  | slices (depth : Nat)
  deriving DecidableEq

inductive ArrayError (ε : Type) where
  | errorf (format : String) (args : List Int)
  /-- "failed to scan array element %d: %w" -/
  | element (i : Nat) (err : ε)
  deriving DecidableEq

inductive Layout where
  | dims (dims : List ArrayDimension)
  | flat
  | nested (view : View)

def Layout.headers : Layout → Nat
  | .nested view => view.headers
  | _ => 0

/-- The layout, with the elements made in a flat slice of as many as `cardinality` says -/
def setDimensions {ε : Type} (p : Platform) (dimensions : List ArrayDimension) :
    ArrayTarget → Checked (ArrayError ε) Layout
  | .array => .ok (.dims dimensions)
  | .flatArray => .ok .flat
  | .slices depth =>
    match dimensions with
    | [] => .ok .flat
    | [_] => .ok .flat
    | d :: d' :: ds =>
      if depth ≠ (d :: d' :: ds).length then
        .error (.returned (.errorf "PostgreSQL array has %d dimensions but slice has %d dimensions"
          [(d :: d' :: ds).length, depth]))
      else
        match makeMultidimensionalSlice p (cardinality p (d :: d' :: ds)).toNat (d :: d' :: ds) 0 with
        | some view => .ok (.nested view)
        | none => .error .panic

variable {t : ArrayTarget}

/-- The target is a nested slice, and the array has as many dimensions. -/
def ArrayTarget.Nests (t : ArrayTarget) (dims : List ArrayDimension) : Prop :=
  2 ≤ dims.length ∧ t = .slices dims.length

instance (t : ArrayTarget) (dims : List ArrayDimension) : Decidable (t.Nests dims) := by
  unfold ArrayTarget.Nests
  infer_instance

/-- The target can hold an array with these dimensions. -/
def ArrayTarget.Takes (t : ArrayTarget) (dims : List ArrayDimension) : Prop :=
  ∀ depth, t = .slices depth → 2 ≤ dims.length → depth = dims.length

theorem ArrayTarget.Nests.takes (h : t.Nests dims) : t.Takes dims := by
  rintro depth heq -
  have := heq.symm.trans h.2
  cases this
  rfl

theorem setDimensions_nests {ε : Type} (h : t.Nests dims) : setDimensions p dims t =
      match makeMultidimensionalSlice p (cardinality p dims).toNat dims 0 with
      | some view => (.ok (.nested view) : Checked (ArrayError ε) Layout) | none =>
        .error .panic := by
  obtain ⟨hlen, rfl⟩ := h
  match dims, hlen with
  | d :: d' :: ds, _ => simp [setDimensions]

theorem Layout.headers_eq_zero {layout : Layout} (h : ∀ view, layout ≠ .nested view) :
    layout.headers = 0 := by
  cases layout with
  | dims dims => rfl
  | flat => rfl
  | nested view => exact absurd rfl (h view)

theorem setDimensions_other {ε : Type} (p : Platform) (h : ¬ t.Nests dims) :
    (t.Takes dims ∧ ∃ layout, setDimensions p dims t = (.ok layout : Checked (ArrayError ε) Layout) ∧
      ∀ view, layout ≠ .nested view) ∨
    (¬ t.Takes dims ∧ ∃ err, setDimensions p dims t =
      (.error (.returned err) : Checked (ArrayError ε) Layout)) := by
  cases t with
  | array => exact .inl ⟨nofun, _, rfl, nofun⟩
  | flatArray => exact .inl ⟨nofun, _, rfl, nofun⟩
  | slices depth =>
    match dims with
    | [] => exact .inl ⟨fun _ _ hlen => by simp at hlen, _, rfl, nofun⟩
    | [_] => exact .inl ⟨fun _ _ hlen => by simp at hlen, _, rfl, nofun⟩
    | d :: d' :: ds =>
      have hdepth : depth ≠ (d :: d' :: ds).length := by
        rintro rfl
        exact h ⟨by simp, rfl⟩
      exact .inr ⟨fun htakes => hdepth (htakes depth rfl (by simp)), _, if_pos hdepth⟩

/-- The three ways of `SetDimensions`: room is made, a cut or a length panics, or the depths differ.
-/
theorem setDimensions_cases (ε : Type) (p : Platform) (dims : List ArrayDimension) (t : ArrayTarget) :
    (t.Takes dims ∧ (t.Nests dims → Cuts p (cardinality p dims).toNat dims 0) ∧
      ∃ layout, setDimensions p dims t = (.ok layout : Checked (ArrayError ε) Layout) ∧
        layout.headers = if t.Nests dims then rowHeaders dims else 0) ∨
    (t.Nests dims ∧ ¬ Cuts p (cardinality p dims).toNat dims 0 ∧
      setDimensions p dims t = (.error .panic : Checked (ArrayError ε) Layout)) ∨
    (¬ t.Takes dims ∧ ∃ err, setDimensions p dims t =
      (.error (.returned err) : Checked (ArrayError ε) Layout)) := by
  by_cases hnests : t.Nests dims
  · have hcuts := makeMultidimensionalSlice_isSome p (cardinality p dims).toNat dims 0
    rw [setDimensions_nests hnests]
    cases hmake : makeMultidimensionalSlice p (cardinality p dims).toNat dims 0 with
    | none =>
      rw [hmake] at hcuts
      exact .inr (.inl ⟨hnests, fun h => absurd (hcuts.mpr h) (by simp), rfl⟩)
    | some view =>
      rw [hmake] at hcuts
      have hheaders := makeMultidimensionalSlice_headers p _ dims 0 view hmake
      exact .inl ⟨hnests.takes, fun _ => hcuts.mp rfl, _, rfl, by rw [if_pos hnests]; exact hheaders⟩
  · rcases setDimensions_other (ε := ε) p hnests with ⟨htakes, layout, hset, hplain⟩ | hno
    · exact .inl ⟨htakes, fun h => absurd h hnests, layout,
        hset, by rw [if_neg hnests, Layout.headers_eq_zero hplain]⟩
    · exact .inr (.inr hno)

end Pgx.Pgtype
