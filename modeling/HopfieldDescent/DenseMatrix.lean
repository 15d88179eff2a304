import HopfieldDescent.Vec

/-!
# Dense matrices

A matrix is a list of rows of one length.  The number of columns is stored, so that a matrix
without rows still has a width.
-/

namespace HopfieldDescent

/-- A rectangular array of scalars, row by row. -/
structure DenseMatrix (R : Type) where
  /-- Number of columns. -/
  width : Nat
  /-- The rows, from the top. -/
  rows : List (Vec R)
  /-- Every row has one entry for each column. -/
  length_of_mem : ∀ row ∈ rows, row.length = width

namespace DenseMatrix

variable {R : Type}

/-- Number of rows. -/
def height (a : DenseMatrix R) : Nat := a.rows.length

/-- The matrix with the given rows, if they have one length; no rows make the empty matrix. -/
def ofRows? (rows : List (Vec R)) : Option (DenseMatrix R) :=
  let width := (rows.head?.map List.length).getD 0
  if h : ∀ row ∈ rows, row.length = width then some ⟨width, rows, h⟩ else none

/-- The matrix of a single row. -/
def ofRow (row : Vec R) : DenseMatrix R :=
  ⟨row.length, [row], by simp⟩

/-- The entries, row by row. -/
def entries (a : DenseMatrix R) : Vec R := a.rows.flatten

/-- The columns of a list of rows, of which `width` are taken. -/
def columns (width : Nat) (rows : List (Vec R)) : List (Vec R) :=
  rows.foldr (List.zipWith List.cons) (List.replicate width [])

theorem length_columns (width : Nat) (rows : List (Vec R))
    (h : ∀ row ∈ rows, row.length = width) : (columns width rows).length = width := by
  induction rows with
  | nil => simp [columns]
  | cons row rows ih =>
    have hrest := ih fun r hr => h r (List.mem_cons_of_mem _ hr)
    have hrow := h row List.mem_cons_self
    simp only [columns, List.foldr_cons, List.length_zipWith] at hrest ⊢
    omega

theorem length_of_mem_columns (width : Nat) (rows : List (Vec R)) :
    ∀ column ∈ columns width rows, column.length = rows.length := by
  induction rows with
  | nil =>
    intro column hc
    simp only [columns, List.foldr_nil, List.mem_replicate] at hc
    simp [hc.2]
  | cons row rows ih =>
    intro column hc
    obtain ⟨i, hi, rfl⟩ := List.mem_iff_getElem.1 hc
    have hlen : i < (columns width rows).length := by
      have : i < (List.zipWith List.cons row (columns width rows)).length := hi
      simp only [List.length_zipWith] at this
      omega
    have hcell := ih _ (List.getElem_mem hlen)
    simp only [columns, List.foldr_cons, List.getElem_zipWith, List.length_cons] at hcell ⊢
    omega

/-- Rows and columns exchanged. -/
def transpose (a : DenseMatrix R) : DenseMatrix R where
  width := a.height
  rows := columns a.width a.rows
  length_of_mem := length_of_mem_columns a.width a.rows

variable [Scalar R]

/-- The product with a vector of one entry for each column. -/
def mulVec (a : DenseMatrix R) (v : Vec R) : Checked (Vec R) := do
  Breach.sameLength a.width v.length
  return a.rows.map fun row => Vec.inner row v

/-- The products of all pairs of columns, a symmetric matrix. -/
def gram (a : DenseMatrix R) : DenseMatrix R :=
  let columns := a.transpose.rows
  { width := columns.length
    rows := columns.map fun c => columns.map fun d => Vec.inner c d
    length_of_mem := by
      intro row hrow
      obtain ⟨c, _, rfl⟩ := List.mem_map.1 hrow
      simp }

/-- Whether a matrix equals its transpose, entry by entry. -/
def isSymmetric (a : DenseMatrix R) : Bool := a.rows == a.transpose.rows

/-- Half the sum of a square matrix and its transpose. -/
def symmetrize (a : DenseMatrix R) (square : a.height = a.width) : DenseMatrix R where
  width := a.width
  rows := List.zipWith (List.zipWith fun p q => 0.5 * (p + q)) a.rows a.transpose.rows
  length_of_mem := by
    intro row hrow
    obtain ⟨i, hi, rfl⟩ := List.mem_iff_getElem.1 hrow
    simp only [List.length_zipWith, Nat.lt_min] at hi
    simp only [List.getElem_zipWith, List.length_zipWith]
    have hleft := a.length_of_mem _ (List.getElem_mem hi.1)
    have hright := a.transpose.length_of_mem _ (List.getElem_mem hi.2)
    have hwidth : a.transpose.width = a.height := rfl
    omega

end DenseMatrix

end HopfieldDescent
