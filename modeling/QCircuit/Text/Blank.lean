/-! White space, lines and words.

A blank is a character with the Unicode property White_Space. Lines end at a line feed, and a
text that ends in one has no further empty line after it. Words are the maximal runs of
characters that are not blank. -/
namespace QCircuit.Text

def isBlank (c : Char) : Bool :=
  let n := c.toNat
  (9 ≤ n && n ≤ 13) || n == 0x20 || n == 0x85 || n == 0xa0 || n == 0x1680 ||
    (0x2000 ≤ n && n ≤ 0x200a) || n == 0x2028 || n == 0x2029 || n == 0x202f || n == 0x205f ||
    n == 0x3000

def trimLeft (cs : List Char) : List Char := cs.dropWhile isBlank

def trim (cs : List Char) : List Char := (trimLeft (trimLeft cs).reverse).reverse

theorem length_dropWhile_le (p : Char → Bool) (cs : List Char) :
    (cs.dropWhile p).length ≤ cs.length := by
  induction cs with
  | nil => simp
  | cons c rest ih =>
    rw [List.dropWhile_cons]
    split
    · exact Nat.le_succ_of_le ih
    · simp

def words : List Char → List (List Char)
  | [] => []
  | c :: rest =>
    if isBlank c then words rest
    else (c :: rest.takeWhile (!isBlank ·)) :: words (rest.dropWhile (!isBlank ·))
termination_by cs => cs.length
decreasing_by
  · simp
  · exact Nat.lt_succ_of_le (length_dropWhile_le _ rest)

def lines : List Char → List (List Char)
  | [] => []
  | c :: rest =>
    (c :: rest).takeWhile (· != '\n') :: lines ((c :: rest).dropWhile (· != '\n')).tail
termination_by cs => cs.length
decreasing_by
  have bound := length_dropWhile_le (· != '\n') (c :: rest)
  simp only [List.length_cons, List.length_tail] at bound ⊢
  omega

-- No word is empty, and no word holds a blank.
theorem word_solid (cs word : List Char) (member : word ∈ words cs) :
    word ≠ [] ∧ ∀ c ∈ word, isBlank c = false := by
  fun_induction words cs with
  | case1 => simp at member
  | case2 c rest blank ih => exact ih member
  | case3 c rest solid ih =>
    rcases List.mem_cons.mp member with rfl | later
    · refine ⟨by simp, fun d inside => ?_⟩
      rcases List.mem_cons.mp inside with rfl | tail
      · simpa using solid
      · simpa using List.all_eq_true.mp List.all_takeWhile d tail
    · exact ih later

end QCircuit.Text
