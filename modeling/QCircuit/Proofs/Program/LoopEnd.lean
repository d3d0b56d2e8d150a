import Mathlib.Data.List.Intervals
import QCircuit.Proofs.Program.Nesting
import QCircuit.Proofs.Program.OperandFaults
/-! Where a loop ends.

The line that closes a loop is the first one up to which more loops have been closed than opened
behind the header. It is found by a count of the loops that are open, which is the number opened
less the number closed and so never falls below zero on the way. A loop that is opened inside is
closed inside as well. -/
namespace QCircuit
open Text

section Lines
variable (raw : List (List Char))

/-- The first word of the line at an index. -/
def firstWord? (i : Nat) : Option String :=
  raw[i]?.bind fun cs => (words cs).head?.map String.ofList

/-- The line at an index begins with a keyword. -/
def begins (k : Keyword) (i : Nat) : Bool := (firstWord? raw i).bind Keyword.ofWord? == some k

/-- How many of the lines from one index on and below another begin with a keyword. -/
def countOf (k : Keyword) (start stop : Nat) : Nat := (List.Ico start stop).countP (begins raw k)

/-- The line at an index, if it counts. -/
def lineAt? (i : Nat) : Option Line := raw[i]?.bind fun cs => Line.ofWords? (i + 1) (words cs)

/-- The lines that count from one index on and below another. -/
def linesWithin (start stop : Nat) : List Line := (List.Ico start stop).filterMap (lineAt? raw)

/-- A loop that is opened at an index ends at another below `stop`: there for the first time more
loops have been closed than opened behind the header. -/
structure EndsAt (index stop i : Nat) : Prop where
  behind : index < i
  inside : i < stop
  surplus : countOf raw .loop (index + 1) (i + 1) < countOf raw .endLoop (index + 1) (i + 1)
  least : ∀ j, index < j → j < i →
    countOf raw .endLoop (index + 1) (j + 1) ≤ countOf raw .loop (index + 1) (j + 1)

end Lines

theorem ofText_lines (text : String) : (Source.ofText text).lines =
    linesWithin (lines text.toList) 0 (lines text.toList).length := by
  have numbered : ∀ raw : List (List Char),
      raw.zipIdx 1 = (List.finRange raw.length).map fun i => (raw[i], i.val + 1) := by
    intro raw
    apply List.ext_getElem
    · simp
    · intro i _ _
      simp [Nat.add_comm]
  rw [Source.ofText, linesWithin, List.Ico.zero_bot, ← List.map_coe_finRange_eq_range, numbered,
    List.filterMap_map, List.filterMap_map]
  apply List.filterMap_congr
  intro i _
  simp [lineAt?]

variable {raw : List (List Char)}

theorem not_comment_of_keyword {word : List Char} {k : Keyword}
    (named : Keyword.ofWord? (String.ofList word) = some k) : startsComment word = false := by
  have known : ∀ w : String, Keyword.ofWord? w = some k → startsComment w.toList = false := by
    intro w found
    unfold Keyword.ofWord? at found
    split at found <;> first | decide | cases found
  have plain := known _ named
  rwa [String.toList_ofList] at plain

theorem ofWord?_closing {word : String} (named : Keyword.ofWord? word = some .endLoop) :
    word = "endfor" := by
  unfold Keyword.ofWord? at named
  split at named <;> first | rfl | cases named

theorem role_eq_keyword_iff {line : Line} {k : Keyword} :
    line.role = .keyword k ↔ Keyword.ofWord? line.head = some k := by
  rw [Line.role, Role.ofWord]
  cases Keyword.ofWord? line.head with
  | none => cases Mnemonic.ofWord? line.head <;> simp
  | some k' => simp

-- A comment begins with no keyword, so keywords can be told from the lines that count.
theorem begins_eq (k : Keyword) (i : Nat) :
    begins raw k i = (lineAt? raw i).any fun line => line.role == .keyword k := by
  unfold begins firstWord? lineAt?
  cases raw[i]? with
  | none => rfl
  | some cs =>
      simp only [Option.bind_some]
      cases words cs with
      | nil => rfl
      | cons head operands =>
          simp only [List.head?_cons, Option.map_some, Option.bind_some, Line.ofWords?]
          by_cases comment : startsComment head = true
          · have plain : Keyword.ofWord? (String.ofList head) ≠ some k := by
              intro named
              rw [not_comment_of_keyword named] at comment
              cases comment
            simp [comment, plain]
          · rw [Bool.eq_iff_iff]
            simp [comment, role_eq_keyword_iff]

theorem begins_of_line {i : Nat} {line : Line} (found : lineAt? raw i = some line) (k : Keyword) :
    begins raw k i = true ↔ line.role = .keyword k := by
  rw [begins_eq, found, Option.any_some, beq_iff_eq]

theorem begins_of_other {i : Nat} {line : Line} (found : lineAt? raw i = some line) {k : Keyword}
    (other : line.role ≠ .keyword k) : begins raw k i = false := by
  rw [← Bool.not_eq_true, begins_of_line found]
  exact other

theorem begins_of_none {i : Nat} (missing : lineAt? raw i = none) (k : Keyword) :
    begins raw k i = false := by
  rw [begins_eq, missing, Option.any_none]

theorem begins_one (i : Nat) :
    (begins raw .loop i).toNat = 0 ∨ (begins raw .endLoop i).toNat = 0 := by
  unfold begins
  cases (firstWord? raw i).bind Keyword.ofWord? with
  | none => exact .inl rfl
  | some k => cases k <;> first | exact .inl rfl | exact .inr rfl

theorem linesWithin_first {start stop : Nat} (below : start < stop) :
    linesWithin raw start stop =
      (lineAt? raw start).toList ++ linesWithin raw (start + 1) stop := by
  rw [linesWithin, List.Ico.eq_cons below, List.filterMap_cons, linesWithin]
  cases lineAt? raw start <;> rfl

theorem linesWithin_last {start stop : Nat} (from_start : start ≤ stop) :
    linesWithin raw start (stop + 1) = linesWithin raw start stop ++ (lineAt? raw stop).toList := by
  rw [linesWithin, List.Ico.succ_top from_start, List.filterMap_append, linesWithin]
  cases found : lineAt? raw stop <;> simp [found]

theorem linesWithin_self (i : Nat) : linesWithin raw i i = [] := by
  rw [linesWithin, List.Ico.self_empty, List.filterMap_nil]

theorem countOf_last (k : Keyword) {start stop : Nat} (from_start : start ≤ stop) :
    countOf raw k start (stop + 1) = countOf raw k start stop + (begins raw k stop).toNat := by
  rw [countOf, List.Ico.succ_top from_start, List.countP_append, countOf, List.countP_singleton]
  cases begins raw k stop <;> rfl

theorem countOf_self (k : Keyword) (i : Nat) : countOf raw k i i = 0 := by
  rw [countOf, List.Ico.self_empty, List.countP_nil]

theorem countOf_split (k : Keyword) {start middle stop : Nat} (first : start ≤ middle)
    (second : middle ≤ stop) :
    countOf raw k start stop = countOf raw k start middle + countOf raw k middle stop := by
  rw [countOf, ← List.Ico.append_consecutive first second, List.countP_append, countOf, countOf]

theorem map_inFront_nil (parts? : Option (List Line × Line × List Line)) :
    parts?.map (inFront []) = parts? := by
  cases parts? <;> rfl

-- One line of the search: the count of open loops goes up or down, or stays.
theorem splitLoop_line {depth i stop : Nat} (below : i < stop)
    (covered : (begins raw .endLoop i).toNat ≤ depth) :
    splitLoop depth (linesWithin raw i stop) =
      (splitLoop (depth + (begins raw .loop i).toNat - (begins raw .endLoop i).toNat)
        (linesWithin raw (i + 1) stop)).map (inFront (lineAt? raw i).toList) := by
  rw [linesWithin_first below]
  cases found : lineAt? raw i with
  | none =>
      rw [begins_of_none found, begins_of_none found]
      exact (map_inFront_nil _).symm
  | some line =>
      by_cases opens : line.role = .keyword .loop
      · have opened : begins raw .loop i = true := (begins_of_line found .loop).mpr opens
        have unclosed : begins raw .endLoop i = false := begins_of_other found (by simp [opens])
        rw [opened, unclosed]
        exact splitLoop_opens opens depth _
      · have unopened : begins raw .loop i = false := begins_of_other found opens
        by_cases closes : line.role = .keyword .endLoop
        · have closed : begins raw .endLoop i = true := (begins_of_line found .endLoop).mpr closes
          rw [closed] at covered
          obtain ⟨inner, rfl⟩ := Nat.exists_eq_add_of_le' covered
          rw [unopened, closed]
          exact splitLoop_closes closes inner _
        · have unclosed : begins raw .endLoop i = false := begins_of_other found closes
          rw [unopened, unclosed]
          exact splitLoop_flat ⟨opens, closes⟩ depth _

-- The search in the middle of its way. The difference is a true one: it never falls below zero.
theorem splitLoop_passes {start stop j : Nat} (behind : start ≤ j) (inside : j ≤ stop)
    (covered : ∀ h, start ≤ h → h ≤ j → countOf raw .endLoop start h ≤ countOf raw .loop start h) :
    splitLoop 0 (linesWithin raw start stop) =
      (splitLoop (countOf raw .loop start j - countOf raw .endLoop start j)
        (linesWithin raw j stop)).map (inFront (linesWithin raw start j)) := by
  induction j, behind using Nat.le_induction with
  | base =>
      rw [countOf_self, countOf_self, linesWithin_self, map_inFront_nil]
  | succ j behind ih =>
      have before := covered j behind (Nat.le_succ j)
      have after := covered (j + 1) (Nat.le_succ_of_le behind) le_rfl
      rw [countOf_last .loop behind, countOf_last .endLoop behind] at after ⊢
      have room : (begins raw .endLoop j).toNat ≤
          countOf raw .loop start j - countOf raw .endLoop start j := by
        have one := @begins_one raw j
        omega
      rw [ih (by omega) fun h low high => covered h low (Nat.le_succ_of_le high),
        splitLoop_line inside room, map_inFront, linesWithin_last behind]
      congr 2
      omega

section Ends
variable {index stop i : Nat}

-- As long as no line has a surplus, the count of open loops covers every line that closes one.
theorem covered_before {j : Nat} (inside : j ≤ stop)
    (first : ∀ i, EndsAt raw index stop i → j ≤ i) :
    ∀ h, index + 1 ≤ h → h ≤ j →
      countOf raw .endLoop (index + 1) h ≤ countOf raw .loop (index + 1) h := by
  intro h
  induction h using Nat.strongRec with
  | _ h ih =>
      intro behind before
      rcases behind.eq_or_lt with rfl | behind
      · rw [countOf_self]
        exact Nat.zero_le _
      · obtain ⟨i, rfl⟩ := Nat.exists_eq_add_of_le' (Nat.one_le_of_lt behind)
        by_contra surplus
        have ends : EndsAt raw index stop i := {
          behind := by omega
          inside := by omega
          surplus := by omega
          least := fun k later earlier => ih (k + 1) (by omega) (by omega) (by omega) }
        have := first i ends
        omega

theorem EndsAt.first {other : Nat} (ends : EndsAt raw index stop i)
    (ends' : EndsAt raw index stop other) : i ≤ other := by
  by_contra earlier
  have surplus := ends'.surplus
  have covered := ends.least other ends'.behind (by omega)
  omega

theorem EndsAt.covered (ends : EndsAt raw index stop i) : ∀ h, index + 1 ≤ h → h ≤ i →
    countOf raw .endLoop (index + 1) h ≤ countOf raw .loop (index + 1) h :=
  covered_before ends.inside.le fun _ => ends.first

-- The line with the surplus closes a loop when no other is open.
theorem EndsAt.splitLoop (ends : EndsAt raw index stop i) :
    ∃ closing, lineAt? raw i = some closing ∧ closing.role = .keyword .endLoop ∧
      splitLoop 0 (linesWithin raw (index + 1) stop) =
        some (linesWithin raw (index + 1) i, closing, linesWithin raw (i + 1) stop) := by
  have behind : index + 1 ≤ i := ends.behind
  have least := ends.covered i behind le_rfl
  have surplus := ends.surplus
  rw [countOf_last .loop behind, countOf_last .endLoop behind] at surplus
  have closed : begins raw .endLoop i = true := by
    rw [← Bool.not_eq_false]
    intro unclosed
    rw [unclosed, Bool.toNat_false] at surplus
    omega
  have level : countOf raw .loop (index + 1) i - countOf raw .endLoop (index + 1) i = 0 := by
    rw [closed, Bool.toNat_true] at surplus
    omega
  cases found : lineAt? raw i with
  | none =>
      rw [begins_of_none found] at closed
      cases closed
  | some closing =>
      have role := (begins_of_line found .endLoop).mp closed
      refine ⟨closing, rfl, role, ?_⟩
      rw [splitLoop_passes behind ends.inside.le ends.covered, level, linesWithin_first ends.inside,
        found, Option.toList_some, List.singleton_append, splitLoop_closes_last role]
      simp [inFront]

theorem splitLoop_never (never : ¬∃ i, EndsAt raw index stop i) :
    splitLoop 0 (linesWithin raw (index + 1) stop) = none := by
  rcases Nat.lt_or_ge index stop with below | none
  · have first : ∀ i, EndsAt raw index stop i → stop ≤ i := fun i ends => absurd ⟨i, ends⟩ never
    rw [splitLoop_passes below le_rfl (covered_before le_rfl first), linesWithin_self]
    rfl
  · rw [linesWithin, List.Ico.eq_nil_of_le (Nat.le_succ_of_le none)]
    rfl

-- Behind a header inside, the line that ends the outer loop has a surplus of its own.
theorem EndsAt.nested (ends : EndsAt raw index stop i) {j : Nat} (behind : index < j)
    (before : j < i) (opens : begins raw .loop j = true) : ∃ k, EndsAt raw j i k := by
  by_contra never
  have first : ∀ k, EndsAt raw j i k → i ≤ k := fun k ends' => absurd ⟨k, ends'⟩ never
  have inner := covered_before le_rfl first i before le_rfl
  have outer := ends.covered j behind before.le
  have header : (begins raw .endLoop j).toNat = 0 := by
    have one := @begins_one raw j
    rw [opens, Bool.toNat_true] at one
    omega
  have whole : ∀ k, countOf raw k (index + 1) i =
      countOf raw k (index + 1) j + (begins raw k j).toNat + countOf raw k (j + 1) i := by
    intro k
    rw [← countOf_last k behind, countOf_split k (Nat.le_succ_of_le behind) before]
  have loops := whole .loop
  have closings := whole .endLoop
  have last := (begins raw .endLoop i).toNat_le
  have surplus := ends.surplus
  have inside : index + 1 ≤ i := ends.behind
  rw [countOf_last .loop inside, countOf_last .endLoop inside] at surplus
  rw [opens, Bool.toNat_true] at loops
  omega

-- The line that ends the loop is accepted if its first word is all that it has.
theorem EndsAt.openLoop (ends : EndsAt raw index stop i) {env : Environment} {line : Line}
    {header : LoopHeader} (read : readHeader env line = .ok header) :
    ∃ cs extra, raw[i]? = some cs ∧ words cs = "endfor".toList :: extra ∧
      openLoop env line (linesWithin raw (index + 1) stop) = match extra with
        | [] => .ok ⟨header, linesWithin raw (index + 1) i, linesWithin raw (i + 1) stop⟩
        | word :: _ => .error ⟨i + 1, .unexpectedWord (String.ofList word)⟩ := by
  obtain ⟨closing, found, role, split⟩ := ends.splitLoop
  obtain ⟨cs, inside, counts⟩ := Option.bind_eq_some_iff.mp found
  cases whole : words cs with
  | nil =>
      rw [whole] at counts
      cases counts
  | cons head extra =>
      rw [whole, Line.ofWords?, Option.ite_none_left_eq_some, Option.some.injEq] at counts
      obtain ⟨-, rfl⟩ := counts
      have named := ofWord?_closing (role_eq_keyword_iff.mp role)
      refine ⟨cs, extra, inside, ?_, ?_⟩
      · rw [whole, ← named, String.toList_ofList]
      · rw [QCircuit.openLoop, read, split]
        cases extra <;> rfl

theorem EndsAt.not_unclosed (ends : EndsAt raw index stop i) (env : Environment) (line : Line)
    (number : Nat) : QCircuit.openLoop env line (linesWithin raw (index + 1) stop) ≠
      .error ⟨number, .loopNotClosed⟩ := by
  intro refused
  obtain ⟨closing, -, -, split⟩ := ends.splitLoop
  rcases openLoop_blames split _ refused with kind | kind <;> cases kind

end Ends

/-- A loop ends at the first line behind its header up to which more loops are closed than opened,
and is unclosed if there is none. The count of open loops is a true difference all the way to this
line, and the loops that are opened before it end before it. -/
theorem loop_ends_at_first_surplus (raw : List (List Char)) (index stop : Nat) :
    (∀ env line header, readHeader env line = .ok header →
      (∀ i, EndsAt raw index stop i → ∃ cs extra, raw[i]? = some cs ∧
        words cs = "endfor".toList :: extra ∧
        openLoop env line (linesWithin raw (index + 1) stop) = match extra with
          | [] => .ok ⟨header, linesWithin raw (index + 1) i, linesWithin raw (i + 1) stop⟩
          | word :: _ => .error ⟨i + 1, .unexpectedWord (String.ofList word)⟩) ∧
      (openLoop env line (linesWithin raw (index + 1) stop) =
        .error ⟨line.number, .loopNotClosed⟩ ↔ ¬∃ i, EndsAt raw index stop i)) ∧
    (∀ j, index < j → j ≤ stop → (∀ i, EndsAt raw index stop i → j ≤ i) →
      countOf raw .endLoop (index + 1) j ≤ countOf raw .loop (index + 1) j ∧
      splitLoop 0 (linesWithin raw (index + 1) stop) =
        (splitLoop (countOf raw .loop (index + 1) j - countOf raw .endLoop (index + 1) j)
          (linesWithin raw j stop)).map (inFront (linesWithin raw (index + 1) j))) ∧
    ∀ i, EndsAt raw index stop i → ∀ j, index < j → j < i → begins raw .loop j = true →
      (∃ k, EndsAt raw j i k) ∧ ∀ env line number,
        openLoop env line (linesWithin raw (j + 1) i) ≠ .error ⟨number, .loopNotClosed⟩ := by
  refine ⟨fun env line header read => ⟨fun i ends => ends.openLoop read, ?_, ?_⟩, ?_, ?_⟩
  · rintro refused ⟨i, ends⟩
    exact ends.not_unclosed env line line.number refused
  · intro never
    rw [openLoop, read, splitLoop_never never]
    rfl
  · intro j behind inside first
    have covered := covered_before inside first
    exact ⟨covered j behind le_rfl, splitLoop_passes behind inside covered⟩
  · intro i ends j behind before opens
    obtain ⟨k, ends'⟩ := ends.nested behind before opens
    exact ⟨⟨k, ends'⟩, ends'.not_unclosed⟩

-- The inner loop ends one line before the outer one, whose last line has a word too many.
theorem loop_ends_at_first_surplus_nested :
    let text := "for $i 1:2\n// for\nfor $j 1:$i\nendef\nendfor\nendfor 3\nendfor"
    let raw := lines text.toList
    let line : Line := ⟨1, "for", ["$i", "1:2"]⟩
    (Source.ofText text).lines = line :: linesWithin raw 1 7 ∧
      readHeader .empty line = .ok ⟨"$i", 1, 2⟩ ∧ EndsAt raw 0 7 5 ∧
      openLoop .empty line (linesWithin raw 1 7) = .error ⟨6, .unexpectedWord "3"⟩ ∧
      splitLoop 0 (linesWithin raw 1 7) =
        (splitLoop 1 (linesWithin raw 4 7)).map (inFront (linesWithin raw 1 4)) ∧
      ∃ k, EndsAt raw 2 5 k := by
  intro text raw line
  have read : readHeader .empty line = .ok ⟨"$i", 1, 2⟩ := by decide +kernel
  have covered : ∀ j < 5, 0 < j →
      countOf raw .endLoop 1 (j + 1) ≤ countOf raw .loop 1 (j + 1) := by decide +kernel
  have ends : EndsAt raw 0 7 5 := {
    behind := by decide
    inside := by decide
    surplus := by decide +kernel
    least := fun j behind before => covered j before behind }
  obtain ⟨search, counter, inner⟩ := loop_ends_at_first_surplus raw 0 7
  refine ⟨?_, read, ends, ?_, ?_, ?_⟩
  · have whole : (lines text.toList).length = 7 := by decide +kernel
    have head : lineAt? (lines text.toList) 0 = some line := by decide +kernel
    rw [ofText_lines, whole, linesWithin_first (by decide), head]
    rfl
  · obtain ⟨cs, extra, found, whole, result⟩ := (search .empty line _ read).1 5 ends
    have last : raw[5]? = some "endfor 3".toList := by decide +kernel
    have trailing : words "endfor 3".toList = ["endfor".toList, "3".toList] := by decide +kernel
    rw [last, Option.some.injEq] at found
    rw [← found, trailing, List.cons.injEq] at whole
    rw [result, ← whole.2]
    rfl
  · have one : countOf raw .loop (0 + 1) 4 - countOf raw .endLoop (0 + 1) 4 = 1 := by
      decide +kernel
    have early : ∀ i, EndsAt raw 0 7 i → 4 ≤ i :=
      fun i other => le_trans (by decide) (ends.first other)
    have passed := counter 4 (by decide) (by decide) early
    rw [one] at passed
    exact passed.2
  · exact (inner 5 ends 2 (by decide) (by decide) (by decide +kernel)).1

end QCircuit
