/-
Offsets counted in bytes.

Spans and positions count the bytes of the UTF-8 form of a text, while texts are read as lists of
characters.  `byteLength` is the one measure that links the two.

* `byteLength_append` — the measure adds up, so the offset of a place is the measure of what comes
  before it;
* `byteLength_eq_length_iff` — bytes count as many as characters if each character has one byte;
* `takeBytes_append_dropBytes` — cutting at an offset loses nothing;
* `sliceBytes_append` — the characters between two offsets are the part of the text between them.
-/

namespace Transclude.Text

/-- The number of bytes of the UTF-8 form. -/
def byteLength : List Char → Nat
  | [] => 0
  | c :: cs => c.utf8Size + byteLength cs

@[simp] theorem byteLength_nil : byteLength [] = 0 := rfl

@[simp] theorem byteLength_cons (c : Char) (cs : List Char) :
    byteLength (c :: cs) = c.utf8Size + byteLength cs := rfl

@[simp] theorem byteLength_append (a b : List Char) :
    byteLength (a ++ b) = byteLength a + byteLength b := by
  induction a with
  | nil => simp
  | cons c a ih => simp [ih, Nat.add_assoc]

theorem length_le_byteLength (cs : List Char) : cs.length ≤ byteLength cs := by
  induction cs with
  | nil => exact Nat.le_refl _
  | cons c cs ih =>
    have := c.utf8Size_pos
    rw [List.length_cons, byteLength_cons]
    omega

theorem byteLength_eq_length_iff {cs : List Char} :
    byteLength cs = cs.length ↔ ∀ c ∈ cs, c.utf8Size = 1 := by
  induction cs with
  | nil => simp
  | cons c cs ih =>
    have hsize := c.utf8Size_pos
    have hlength := length_le_byteLength cs
    rw [List.forall_mem_cons, ← ih, byteLength_cons, List.length_cons]
    omega

/-- The characters that begin before the byte offset `n`. -/
def takeBytes : Nat → List Char → List Char
  | _, [] => []
  | 0, _ => []
  | n + 1, c :: cs => c :: takeBytes (n + 1 - c.utf8Size) cs

/-- The characters that begin at the byte offset `n` or later. -/
def dropBytes : Nat → List Char → List Char
  | _, [] => []
  | 0, cs => cs
  | n + 1, c :: cs => dropBytes (n + 1 - c.utf8Size) cs

/-- The characters between two byte offsets. -/
def sliceBytes (start stop : Nat) (cs : List Char) : List Char :=
  takeBytes (stop - start) (dropBytes start cs)

theorem takeBytes_append_dropBytes (n : Nat) (cs : List Char) :
    takeBytes n cs ++ dropBytes n cs = cs := by
  induction cs generalizing n with
  | nil => cases n <;> rfl
  | cons c cs ih =>
    cases n with
    | zero => rfl
    | succ n => simp [takeBytes, dropBytes, ih]

theorem takeBytes_append (a b : List Char) : takeBytes (byteLength a) (a ++ b) = a := by
  induction a with
  | nil => cases b <;> rfl
  | cons c a ih =>
    obtain ⟨n, hn⟩ := Nat.exists_eq_add_of_lt c.utf8Size_pos
    have hrest : n + byteLength a + 1 - (n + 1) = byteLength a := by omega
    rw [byteLength_cons, hn, Nat.zero_add, Nat.add_right_comm, List.cons_append, takeBytes, hn,
      Nat.zero_add, hrest, ih]

theorem dropBytes_append (a b : List Char) : dropBytes (byteLength a) (a ++ b) = b := by
  have hcut := takeBytes_append_dropBytes (byteLength a) (a ++ b)
  rw [takeBytes_append] at hcut
  exact List.append_cancel_left hcut

theorem sliceBytes_append (a b c : List Char) :
    sliceBytes (byteLength a) (byteLength a + byteLength b) (a ++ (b ++ c)) = b := by
  rw [sliceBytes, dropBytes_append, Nat.add_sub_cancel_left, takeBytes_append]

end Transclude.Text
