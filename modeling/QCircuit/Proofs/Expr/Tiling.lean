import QCircuit.Proofs.Expr.Munch
/-! Tokens tile the text.

Reading cuts a text into the pieces that lexemes stand for and single characters that are skipped. Each
cut begins where the one in front of it ends, so the lexemes are in order and do not overlap, and since
cuts are made between characters, all offsets are offsets of characters. What no lexeme covers has been
skipped. -/
namespace QCircuit.Expr

/-- A piece stands for the front of a text: a token for the longest front that any pattern matches, and
a stray character for itself, where no pattern matches any front. -/
def Piece.IsFront : Piece → List Char → List Char → Prop
  | .token t, part, rest => Longest part t rest
  | .stray c, part, rest => part = [c] ∧ isSkipped c = false ∧
      ∀ front t after, c :: rest = front ++ after → ¬ Matches front t

/-- The text that begins at byte `start` is cut into the parts that these lexemes cover, with skipped
characters between them. -/
inductive Cuts : Nat → List Char → List Lexeme → Prop where
  | done {start : Nat} : Cuts start [] []
  | skip {start : Nat} {c : Char} {rest : List Char} {ls : List Lexeme}
      (skipped : isSkipped c = true) (later : Cuts (start + c.utf8Size) rest ls) :
      Cuts start (c :: rest) ls
  | piece {start : Nat} {p : Piece} {part rest : List Char} {ls : List Lexeme}
      (front : p.IsFront part rest) (later : Cuts (start + byteSize part) rest ls) :
      Cuts start (part ++ rest) (⟨p, start, start + byteSize part⟩ :: ls)

theorem cuts_lexemesFrom (start : Nat) (cs : List Char) : Cuts start cs (lexemesFrom start cs) := by
  induction cs using pieceInduction generalizing start with
  | nil =>
      rw [lexemesFrom]
      exact .done
  | skip c rest skipped ih =>
      rw [lexemesFrom_skip skipped]
      exact .skip skipped (ih _)
  | token c piece rest t found ih =>
      have longest : Longest (c :: piece) t rest := longest_of_longestToken? found
      rw [← List.cons_append, lexemesFrom_longest longest]
      exact .piece longest (ih _)
  | stray c rest solid none ih =>
      rw [Bool.not_eq_true] at solid
      have front : (Piece.stray c).IsFront [c] rest :=
        ⟨rfl, solid, longestToken?_eq_none_iff.mp none⟩
      rw [lexemesFrom_stray solid none]
      exact .piece front (ih _)

/-! ### What the lexemes cover -/

theorem byteSize_ofList (cs : List Char) : (String.ofList cs).utf8ByteSize = byteSize cs := by
  induction cs with
  | nil => rfl
  | cons c cs ih =>
      rw [String.ofList_cons, String.utf8ByteSize_append, String.utf8ByteSize_singleton, byteSize, ih]

theorem byteSize_toList (text : String) : byteSize text.toList = text.utf8ByteSize := by
  rw [← byteSize_ofList, String.ofList_toList]

theorem byteSize_lt_append (front : List Char) {back : List Char} (some : back ≠ []) :
    byteSize front < byteSize (front ++ back) := by
  obtain ⟨c, back, rfl⟩ := List.exists_cons_of_ne_nil some
  have positive := c.utf8Size_pos
  rw [byteSize_append, byteSize]
  omega

theorem Piece.IsFront.ne_nil {p : Piece} {part rest : List Char} (front : p.IsFront part rest) :
    part ≠ [] := by
  cases p with
  | token t => exact front.fits.ne_nil
  | stray c => exact front.1 ▸ List.cons_ne_nil c []

variable {start : Nat} {cs : List Char} {ls : List Lexeme}

theorem Cuts.part (cuts : Cuts start cs ls) {l : Lexeme} (inside : l ∈ ls) :
    ∃ before part after, cs = before ++ part ++ after ∧ l.start = start + byteSize before ∧
      l.stop = start + byteSize (before ++ part) ∧ l.piece.IsFront part after := by
  induction cuts with
  | done => cases inside
  | @skip start c rest ls _ _ ih =>
      obtain ⟨before, part, after, rfl, begins, ends, front⟩ := ih inside
      refine ⟨c :: before, part, after, rfl, ?_, ?_, front⟩
      · rw [begins, byteSize, Nat.add_assoc]
      · rw [ends, List.cons_append, byteSize, Nat.add_assoc]
  | @piece start p first rest ls front _ ih =>
      rcases List.mem_cons.mp inside with rfl | inside
      · exact ⟨[], first, rest, rfl, rfl, rfl, front⟩
      · obtain ⟨before, part, after, rfl, begins, ends, front⟩ := ih inside
        refine ⟨first ++ before, part, after, by simp only [List.append_assoc], ?_, ?_, front⟩
        · rw [begins, byteSize_append, Nat.add_assoc]
        · rw [ends, List.append_assoc, byteSize_append first, Nat.add_assoc]

theorem Cuts.start_le (cuts : Cuts start cs ls) {l : Lexeme} (inside : l ∈ ls) : start ≤ l.start := by
  obtain ⟨before, part, after, -, begins, -, -⟩ := cuts.part inside
  exact begins ▸ Nat.le_add_right start _

theorem Cuts.ascending (cuts : Cuts start cs ls) : ls.Pairwise fun l l' => l.stop ≤ l'.start := by
  induction cuts with
  | done => exact .nil
  | skip _ _ ih => exact ih
  | piece _ later ih => exact .cons (fun l inside => later.start_le inside) ih

-- A character that is not skipped lies in the first part or behind it.
theorem Cuts.covered (cuts : Cuts start cs ls) {before after : List Char} {c : Char}
    (here : cs = before ++ c :: after) (solid : isSkipped c = false) :
    ∃ l ∈ ls, l.start ≤ start + byteSize before ∧ start + byteSize before < l.stop := by
  induction cuts generalizing before with
  | done => cases before <;> cases here
  | @skip start d rest ls skipped _ ih =>
      cases before with
      | nil =>
          cases here
          rw [solid] at skipped
          cases skipped
      | cons e before =>
          rw [List.cons_append, List.cons.injEq] at here
          obtain ⟨rfl, here⟩ := here
          rw [byteSize, ← Nat.add_assoc]
          exact ih here
  | @piece start p part rest ls front _ ih =>
      have behind : ∀ middle, before = part ++ middle → rest = middle ++ c :: after →
          ∃ l ∈ (⟨p, start, start + byteSize part⟩ : Lexeme) :: ls,
            l.start ≤ start + byteSize before ∧ start + byteSize before < l.stop := by
        rintro middle rfl here
        obtain ⟨l, inside, begins, ends⟩ := ih here
        rw [byteSize_append, ← Nat.add_assoc]
        exact ⟨l, List.mem_cons_of_mem _ inside, begins, ends⟩
      rcases List.append_eq_append_iff.mp here with ⟨middle, past, later⟩ | ⟨middle, split, later⟩
      · exact behind middle past later
      · cases middle with
        | nil => exact behind [] (by rw [split, List.append_nil, List.append_nil]) later.symm
        | cons d middle =>
            subst split
            have shorter := byteSize_lt_append before (List.cons_ne_nil d middle)
            exact ⟨_, List.mem_cons_self, Nat.le_add_right start _, Nat.add_lt_add_left shorter start⟩

/-- The lexeme covers a part of the text that its piece stands for. Offsets count bytes. -/
def Lexeme.StandsIn (text : String) (l : Lexeme) : Prop :=
  ∃ before part after : String, text = before ++ part ++ after ∧
    l.start = before.utf8ByteSize ∧ l.stop = (before ++ part).utf8ByteSize ∧
    l.piece.IsFront part.toList after.toList

/-- The lexemes lie in the text one behind the other, between characters and none of them empty. Each
covers what it stands for, and all that lies outside of them is spaces, tabs and line ends. -/
structure Tiles (text : String) (ls : List Lexeme) : Prop where
  parts : ∀ l ∈ ls, l.StandsIn text
  nonempty : ∀ l ∈ ls, l.start < l.stop
  ascending : ls.Pairwise fun l l' => l.stop ≤ l'.start
  boundaries : ∀ l ∈ ls, String.Pos.Raw.IsValid text ⟨l.start⟩ ∧ String.Pos.Raw.IsValid text ⟨l.stop⟩
  inside : ∀ l ∈ ls, l.stop ≤ text.utf8ByteSize
  gaps : ∀ (before : String) (c : Char) (after : String),
    text = before ++ String.singleton c ++ after →
    (∀ l ∈ ls, before.utf8ByteSize < l.start ∨ l.stop ≤ before.utf8ByteSize) →
    c = ' ' ∨ c = '\t' ∨ c = '\r' ∨ c = '\n'

theorem standsIn_of_mem {text : String} {l : Lexeme} (inside : l ∈ lexemes text) :
    l.StandsIn text := by
  obtain ⟨before, part, after, whole, begins, ends, front⟩ :=
    (cuts_lexemesFrom 0 text.toList).part inside
  refine ⟨.ofList before, .ofList part, .ofList after, ?_, ?_, ?_, ?_⟩
  · rw [← String.ofList_append, ← String.ofList_append, ← whole, String.ofList_toList]
  · rw [byteSize_ofList, begins, Nat.zero_add]
  · rw [← String.ofList_append, byteSize_ofList, ends, Nat.zero_add]
  · rwa [String.toList_ofList, String.toList_ofList]

section
variable {text : String} {l : Lexeme}

theorem Lexeme.StandsIn.start_lt_stop (stands : l.StandsIn text) : l.start < l.stop := by
  obtain ⟨before, part, after, -, begins, ends, front⟩ := stands
  rw [begins, ends, ← byteSize_toList, ← byteSize_toList, String.toList_append]
  exact byteSize_lt_append _ front.ne_nil

theorem Lexeme.StandsIn.boundaries (stands : l.StandsIn text) :
    String.Pos.Raw.IsValid text ⟨l.start⟩ ∧ String.Pos.Raw.IsValid text ⟨l.stop⟩ := by
  obtain ⟨before, part, after, whole, begins, ends, -⟩ := stands
  rw [String.Pos.Raw.isValid_iff_exists_append, String.Pos.Raw.isValid_iff_exists_append, begins, ends]
  exact ⟨⟨before, part ++ after, by rw [whole, String.append_assoc], rfl⟩,
    ⟨before ++ part, after, whole, rfl⟩⟩

theorem Lexeme.StandsIn.stop_le (stands : l.StandsIn text) : l.stop ≤ text.utf8ByteSize := by
  obtain ⟨before, part, after, whole, -, ends, -⟩ := stands
  rw [ends, whole, String.utf8ByteSize_append (t := after)]
  exact Nat.le_add_right _ _

end

theorem lexemes_tiles (text : String) : Tiles text (lexemes text) where
  parts := fun l inside => standsIn_of_mem inside
  nonempty := fun l inside => (standsIn_of_mem inside).start_lt_stop
  ascending := (cuts_lexemesFrom 0 text.toList).ascending
  boundaries := fun l inside => (standsIn_of_mem inside).boundaries
  inside := fun l inside => (standsIn_of_mem inside).stop_le
  gaps := by
    intro before c after whole outside
    have here : text.toList = before.toList ++ c :: after.toList := by
      rw [whole, String.toList_append, String.toList_append, String.toList_singleton,
        List.append_assoc, List.singleton_append]
    cases solid : isSkipped c with
    | true => exact skipped_cases solid
    | false =>
        obtain ⟨l, inside, begins, ends⟩ := (cuts_lexemesFrom 0 text.toList).covered here solid
        rw [Nat.zero_add, byteSize_toList] at begins ends
        have apart := outside l inside
        omega

/-! ### Words that are one variable -/

theorem Cuts.eq_nil (cuts : Cuts start cs []) (solid : ∀ c ∈ cs, isSkipped c = false) : cs = [] := by
  cases cuts with
  | done => rfl
  | skip skipped =>
      rw [solid _ List.mem_cons_self] at skipped
      cases skipped

theorem Cuts.single {l : Lexeme} (cuts : Cuts start cs [l]) (solid : ∀ c ∈ cs, isSkipped c = false) :
    l.piece.IsFront cs [] := by
  cases cuts with
  | skip skipped =>
      rw [solid _ List.mem_cons_self] at skipped
      cases skipped
  | piece front later =>
      obtain rfl := later.eq_nil fun c inside => solid c (List.mem_append_right _ inside)
      rwa [List.append_nil]

theorem Matches.var_iff {name : String} :
    Matches cs (.var name) ↔ name = String.ofList cs ∧ ∃ first rest, cs = '$' :: first :: rest ∧
      isNameStart first = true ∧ ∀ c ∈ rest, isNameChar c = true := by
  constructor
  · intro fits
    cases fits with
    | var start all => exact ⟨rfl, _, _, rfl, start, all⟩
  · rintro ⟨rfl, first, rest, rfl, start, all⟩
    exact .var start all

theorem lexemes_of_matches {text : String} {t : Token} (fits : Matches text.toList t) :
    lexemes text = [⟨.token t, 0, text.utf8ByteSize⟩] := by
  have alone : Longest text.toList t [] := longest_of_longestToken? (by
    rw [List.append_nil]
    exact fits.whole_text)
  have read := lexemesFrom_longest alone 0
  rw [List.append_nil, Nat.zero_add, byteSize_toList, lexemesFrom] at read
  exact read

theorem matches_of_isVariable {word : String} (solid : ∀ c ∈ word.toList, isSkipped c = false)
    (named : isVariable word = true) : Matches word.toList (.var word) := by
  have cuts := cuts_lexemesFrom 0 word.toList
  unfold isVariable at named
  split at named
  · rename_i name start stop read
    rw [← lexemes, read] at cuts
    have fits : Matches word.toList (.var name) := (cuts.single solid).fits
    have same := (Matches.var_iff.mp fits).1
    rwa [same, String.ofList_toList] at fits
  · cases named

theorem isVariable_of_matches {word : String} (fits : Matches word.toList (.var word)) :
    isVariable word = true := by
  rw [isVariable, lexemes_of_matches fits]

/-- The lexemes of a text tile it. A text without spaces, tabs and line ends is a variable if and only
if its only lexeme is a variable that covers all of it, and if and only if it is a `$`, a letter or an
underscore, and then letters, digits and underscores. -/
theorem lexemes_tile_text (text : String) :
    Tiles text (lexemes text) ∧
      ((∀ c ∈ text.toList, isSkipped c = false) →
        (isVariable text = true ↔ lexemes text = [⟨.token (.var text), 0, text.utf8ByteSize⟩]) ∧
        (isVariable text = true ↔ ∃ first name, text.toList = '$' :: first :: name ∧
          isNameStart first = true ∧ ∀ c ∈ name, isNameChar c = true)) := by
  refine ⟨lexemes_tiles text, fun solid => ⟨⟨fun named => ?_, fun read => ?_⟩, ?_⟩⟩
  · exact lexemes_of_matches (matches_of_isVariable solid named)
  · rw [isVariable, read]
  · constructor
    · intro named
      exact (Matches.var_iff.mp (matches_of_isVariable solid named)).2
    · intro shape
      have whole : text = String.ofList text.toList := String.ofList_toList.symm
      exact isVariable_of_matches (Matches.var_iff.mpr ⟨whole, shape⟩)

-- A number with a second point, a letter of two bytes and a dollar in front of a digit.
theorem lexemes_tile_text_half_tokens :
    let text := "1.2.3 é$1"
    (lexemes text).map (fun l => (l.start, l.stop)) = [(0, 3), (3, 5), (6, 8), (8, 9), (9, 10)] ∧
      Tiles text (lexemes text) ∧
      (∀ c ∈ "$a_1".toList, isSkipped c = false) ∧ isVariable "$a_1" = true ∧
      (∀ c ∈ "$1".toList, isSkipped c = false) ∧ isVariable "$1" = false := by
  intro text
  have solid : ∀ c ∈ "$a_1".toList, isSkipped c = false := by simp [isSkipped]
  have solid' : ∀ c ∈ "$1".toList, isSkipped c = false := by simp [isSkipped]
  have named : isVariable "$a_1" = true :=
    ((lexemes_tile_text "$a_1").2 solid).2.mpr ⟨'a', ['_', '1'], rfl, rfl, List.all_eq_true.mp rfl⟩
  refine ⟨?_, (lexemes_tile_text text).1, solid, named, solid', ?_⟩
  · decide +kernel
  · rw [← Bool.not_eq_true, ((lexemes_tile_text "$1").2 solid').2]
    rintro ⟨first, name, shape, start, -⟩
    cases shape
    cases start

end QCircuit.Expr
