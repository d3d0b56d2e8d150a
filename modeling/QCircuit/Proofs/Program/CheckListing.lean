import QCircuit.CommandLine.Rendering
import QCircuit.Proofs.Gate.Listing
import QCircuit.Proofs.Gate.Width
import QCircuit.Proofs.Program.Calls
import QCircuit.Proofs.Program.Flattening
/-! What the listing of a program tells.

The indentation of a line is its depth, and its words say whether it is an operation, and which, or
a group, and how it is named. So the gates of an accepted program can be told from its listing, and
the number in the line of a group is that of the operations in the lines under it. -/
namespace QCircuit
open Text

theorem Operation.Ready.mono {op : Operation Float} {width wider : Nat} (wide : width ≤ wider)
    (ready : op.Ready width) : op.Ready wider := ⟨ready.fits.mono wide, ready.finite⟩

/-- An operation has a place in the widest register, and the name of a group is one word. -/
def Gate.Legible : Gate Float → Prop
  | .standard op => op.Ready Register.maxQubits
  | .composite name _ => Solid name.toList

/-- Every gate of a listing can be read. -/
def AllLegible (entries : List (Nat × Gate Float)) : Prop := ∀ e ∈ entries, e.2.Legible

-- The name of a group is the first word of the line that calls it.
theorem Expands.legible {width : Nat} {macros : List Macro} {env : Environment} {lines : List Line}
    {gates : List (Gate Float)} (expands : Expands width macros env lines gates)
    (narrow : width ≤ Register.maxQubits) (registered : Registered macros)
    (written : ∀ line ∈ lines, line.Written) (depth : Nat) :
    AllLegible (Gate.listingOf depth gates) := by
  induction expands generalizing depth with
  | done => simp [AllLegible, Gate.listingOf]
  | gate _ placed _ ih =>
      rw [List.forall_mem_cons] at written
      rw [AllLegible, Gate.listingOf_cons, Gate.inside, List.nil_append, List.forall_mem_cons]
      have ready : Operation.Ready _ _ := ⟨placed.fits, fun _ => placed.angle_finite⟩
      exact ⟨ready.mono narrow, ih registered written.2 depth⟩
  | @call macros older env line rest m bound members gates role found binds _ _ ihBody ihRest =>
      rw [List.forall_mem_cons] at written
      obtain ⟨named, contents, -⟩ := registered.found found
      rw [AllLegible, Gate.listingOf_cons, Gate.inside, List.forall_mem_cons,
        List.forall_mem_append]
      refine ⟨?_, ihBody (registered.of_found found) contents.written _,
        ihRest registered written.2 depth⟩
      rw [Gate.Legible, named]
      exact written.1.solid line.head List.mem_cons_self
  | @loop macros env line rest header body after gates turns role heads closes _ _ ihBody ihAfter =>
      rw [List.forall_mem_cons] at written
      obtain ⟨closing, split, -⟩ := closes
      rw [splitLoop_append split, List.forall_mem_append, List.forall_mem_cons] at written
      obtain ⟨-, inBody, -, inAfter⟩ := written
      rw [AllLegible, Gate.listingOf_append, List.forall_mem_append]
      refine ⟨?_, ihAfter registered inAfter depth⟩
      intro e listed
      obtain ⟨g, inside, own⟩ := Gate.mem_listingOf.mp listed
      obtain ⟨i, below, turn⟩ := List.mem_flatMap.mp inside
      exact ihBody i (List.mem_range.mp below) registered inBody depth e
        (Gate.mem_listingOf.mpr ⟨g, turn, own⟩)

theorem mem_statement {st : State} {line other : Line} {rest : List Line}
    (inside : other ∈ (nextStatement st line rest).1) : other ∈ line :: rest := by
  unfold nextStatement at inside
  split at inside
  · split at inside
    · rename_i found
      rw [splitLoop_append found]
      simp only [List.mem_cons, List.mem_append, List.cons_append, List.not_mem_nil,
        or_false] at inside ⊢
      tauto
    · exact inside
  · rw [List.mem_singleton] at inside
    exact inside ▸ List.mem_cons_self

/-- What is known of a state on the way, and of the lines that are left. -/
structure State.Readable (limit : Nat) (st : State) (left : List Line) : Prop where
  written : ∀ line ∈ left, line.Written
  defined : st.Defined
  sound : st.Sound limit
  legible : AllLegible (Gate.listingOf 1 st.gates)

theorem Step.readable {limit : Nat} {st next : State} {line : Line} {rest : List Line}
    (narrow : limit ≤ Register.maxQubits)
    (step : Step limit st line (nextStatement st line rest).1 next)
    (readable : st.Readable limit (line :: rest)) :
    next.Readable limit (nextStatement st line rest).2 where
  written other inside :=
    readable.written other (List.mem_cons_of_mem line (mem_nextStatement inside))
  defined := step.defined (readable.written line List.mem_cons_self) readable.defined
  sound := step.sound readable.sound
  legible := by
    cases step with
    | capture | close | initialise | define => exact readable.legible
    | add _ _ found _ expands =>
        rw [AllLegible, Gate.listingOf_append, List.forall_mem_append]
        refine ⟨readable.legible, expands.legible ?_ readable.defined.registered ?_ 1⟩
        · exact (readable.sound.width _ found).2.trans narrow
        · exact fun other inside => readable.written other (mem_statement inside)

theorem accepted_legible {config : Config} {text : String} {p : Program}
    (accepted : (interpret config text).result = .ok p) :
    AllLegible (Gate.listingOf 1 p.gates) := by
  obtain ⟨last, reached, _, _, same⟩ := interpretSource_eq_ok.mp accepted
  have narrow : config.qubitLimit ≤ Register.maxQubits := Nat.min_le_right _ _
  have start : State.empty.Readable config.qubitLimit (Source.ofText text).lines :=
    ⟨ofText_written text, State.empty_defined,
      ⟨by simp [State.empty], by simp [State.empty, Gate.leavesOf]⟩,
      by simp [AllLegible, State.empty, Gate.listingOf]⟩
  have readable := reached.visits.invariant (fun step => step.readable narrow) start
  rw [← same]
  exact readable.legible

namespace Operation
variable {op op' : Operation Float}

theorem operand_cases {width : Nat} (ready : op.Ready width) :
    ∀ word ∈ op.line.operands, Numeric word ∨ word = "|" := by
  intro word inside
  rcases List.mem_append.mp inside with front | back
  · exact .inl (front_numeric ready word front)
  · unfold Operation.back at back
    split at back
    · cases back
    · rw [List.mem_cons, List.mem_map] at back
      rcases back with bar | ⟨q, -, rfl⟩
      · exact .inr bar
      · exact .inl q.numeric_text

-- A line places one operation at most, so the words of its line determine it.
theorem line_injective {width : Nat} (narrow : width ≤ 2 ^ 53) (ready : op.Ready width)
    (ready' : op'.Ready width) (same : op.line = op'.line) : op = op' := by
  have role := op.role_line
  have placed := places_line ready narrow .empty
  rw [same, op'.role_line, Role.gate.injEq] at role
  rw [same, ← role, ← placeGate_eq_ok] at placed
  have placed' := placeGate_eq_ok.mpr (places_line ready' narrow .empty)
  rw [placed, Except.ok.injEq] at placed'
  exact placed'

end Operation

namespace Gate

/-- The words of the line of a gate. -/
def words : Gate Float → List String
  | .standard op => op.line.words
  | .composite name members => [name, "[" ++ toString (primitiveCountOf members), "gates]"]

variable {g g' : Gate Float}

theorem text_toList (g : Gate Float) : g.text.toList = spaced (g.words.map String.toList) := by
  cases g with
  | standard op => rw [text, op.text_eq, String.toList_ofList, words, Line.text]
  | composite name members => simp [text, words, spaced]

theorem Legible.solid (legible : g.Legible) : ∀ word ∈ g.words, Solid word.toList := by
  cases g with
  | standard op => exact (Operation.written_line legible).solid
  | composite name members =>
      have bracket : Solid "[".toList := by decide
      have count := (Qubit.numeric_text ⟨primitiveCountOf members⟩).solid
      have number : Solid ("[" ++ toString (primitiveCountOf members)).toList := by
        rw [String.toList_append]
        exact ⟨List.append_ne_nil_of_left_ne_nil bracket.1 _,
          List.forall_mem_append.mpr ⟨bracket.2, count.2⟩⟩
      rw [words, List.forall_mem_cons, List.forall_mem_cons]
      exact ⟨legible, number, by decide⟩

theorem Legible.last_word (legible : g.Legible) :
    g.words.getLast? = some "gates]" ↔ g.isGroup = true := by
  cases g with
  | composite name members => simp [words, isGroup]
  | standard op =>
      simp only [isGroup, Bool.false_eq_true, iff_false]
      intro last
      have operand : "gates]" ∈ op.line.operands := List.mem_of_getLast? last
      rcases Operation.operand_cases legible _ operand with numeric | bar
      · have digit : Literal.isChar 'g' = true := numeric.2 'g' (by decide)
        cases digit
      · exact absurd bar (by decide)

theorem Legible.root_eq (legible : g.Legible) (legible' : g'.Legible) (same : g.words = g'.words) :
    g.root = g'.root := by
  have kind : g.isGroup = g'.isGroup := by
    rw [Bool.eq_iff_iff, ← legible.last_word, ← legible'.last_word, same]
  cases g with
  | standard op =>
      cases g' with
      | composite name' members' => cases kind
      | standard op' =>
          rw [words, words, Line.words, Line.words, List.cons.injEq] at same
          have line : op.line = op'.line := Line.mk.injEq .. ▸ ⟨rfl, same⟩
          exact congrArg Sum.inl (Operation.line_injective (by decide) legible legible' line)
  | composite name members =>
      cases g' with
      | standard op' => cases kind
      | composite name' members' =>
          rw [words, words, List.cons.injEq] at same
          exact congrArg Sum.inr same.1

end Gate

namespace CommandLine

/-- The depth of a line of a listing. -/
def indentation (line : String) : Nat := (line.toList.takeWhile (· == ' ')).length / 2

/-- The line of a group has `gates]` as its last word. -/
def isGroupLine (line : String) : Bool :=
  (Text.words line.toList).getLast? == some "gates]".toList

def operationLines (lines : List String) : Nat := lines.countP fun line => !isGroupLine line

/-- The number of operations among the lines behind one, before the depth returns to its own. -/
def operationsUnder (line : String) (after : List String) : Nat :=
  operationLines (after.takeWhile fun other => decide (indentation line < indentation other))

theorem listingLine_toList (e : Nat × Gate Float) : (listingLine e).toList =
    List.replicate (2 * e.1) ' ' ++ spaced (e.2.words.map String.toList) := by
  rw [listingLine, String.toList_append, String.toList_ofList, Gate.text_toList]

theorem spaced_stops {ws : List (List Char)} (solid : ∀ word ∈ ws, Solid word) :
    StopsAt (· == ' ') (spaced ws) := by
  cases ws with
  | nil => simp [StopsAt, spaced]
  | cons word rest =>
      obtain ⟨some, plain⟩ := solid word List.mem_cons_self
      cases word with
      | nil => exact absurd rfl some
      | cons c cs =>
          rw [spaced_cons]
          rintro _ ⟨rfl⟩
          rw [beq_eq_false_iff_ne]
          rintro rfl
          cases plain ' ' List.mem_cons_self

section Lines
variable {e e' : Nat × Gate Float} (legible : e.2.Legible)
include legible

theorem listingLine_indentation : indentation (listingLine e) = e.1 := by
  have run : ∀ c ∈ List.replicate (2 * e.1) ' ', (c == ' ') = true := by simp
  have stops := spaced_stops (List.forall_mem_map.mpr legible.solid)
  rw [indentation, listingLine_toList, takeWhile_of_stops run stops, List.length_replicate]
  omega

theorem listingLine_words :
    Text.words (listingLine e).toList = e.2.words.map String.toList := by
  have blanks : ∀ c ∈ List.replicate (2 * e.1) ' ', isBlank c = true := by
    intro c space
    rw [List.eq_of_mem_replicate space]
    rfl
  rw [listingLine_toList, ← words_dropWhile, List.dropWhile_append_of_pos blanks, words_dropWhile,
    words_spaced (List.forall_mem_map.mpr legible.solid)]

theorem listingLine_isGroup : isGroupLine (listingLine e) = e.2.isGroup := by
  have injective := Option.map_injective fun _ _ => String.toList_inj.mp
  rw [Bool.eq_iff_iff, ← legible.last_word, isGroupLine, listingLine_words legible, beq_iff_eq,
    List.getLast?_map, ← Option.map_some, injective.eq_iff]

theorem listingLine_shown (legible' : e'.2.Legible) (same : listingLine e = listingLine e') :
    (e.1, e.2.root) = (e'.1, e'.2.root) := by
  have depth := congrArg indentation same
  have words := congrArg (fun line => Text.words line.toList) same
  simp only [listingLine_indentation legible, listingLine_indentation legible',
    listingLine_words legible, listingLine_words legible'] at depth words
  have injective := List.map_injective_iff.mpr fun _ _ => String.toList_inj.mp
  rw [depth, legible.root_eq legible' (injective words)]

end Lines

section Listing
variable {entries entries' : List (Nat × Gate Float)} (legible : AllLegible entries)
include legible

theorem lines_shown (legible' : AllLegible entries')
    (same : entries.map listingLine = entries'.map listingLine) :
    Gate.shown entries = Gate.shown entries' := by
  induction entries generalizing entries' with
  | nil =>
      rw [List.map_nil, eq_comm, List.map_eq_nil_iff] at same
      rw [same]
  | cons e rest ih =>
      rw [List.map_cons, eq_comm, List.map_eq_cons_iff] at same
      obtain ⟨e', rest', rfl, line, lines⟩ := same
      rw [AllLegible, List.forall_mem_cons] at legible legible'
      have first := listingLine_shown legible.1 legible'.1 line.symm
      have later := ih legible.2 legible'.2 lines.symm
      rw [Gate.shown, Gate.shown, List.map_cons, List.map_cons, first]
      exact congrArg _ later

theorem lines_read :
    (entries.map listingLine).map (fun line => (indentation line, isGroupLine line)) =
      entries.map fun e => (e.1, e.2.isGroup) := by
  rw [List.map_map]
  apply List.map_congr_left
  intro e inside
  rw [Function.comp_apply, listingLine_indentation (legible e inside),
    listingLine_isGroup (legible e inside)]

theorem lines_count (p : Nat × Bool → Bool) :
    (entries.map listingLine).countP (fun line => p (indentation line, isGroupLine line)) =
      entries.countP fun e => p (e.1, e.2.isGroup) := by
  have counted := congrArg (List.countP p) (lines_read legible)
  simpa only [List.countP_map, Function.comp_def] using counted

theorem lines_takeWhile (deep : Nat) :
    (entries.map listingLine).takeWhile (fun line => decide (deep < indentation line)) =
      (entries.takeWhile fun e => decide (deep < e.1)).map listingLine := by
  induction entries with
  | nil => rfl
  | cons e rest ih =>
      rw [AllLegible, List.forall_mem_cons] at legible
      rw [List.map_cons, List.takeWhile_cons, List.takeWhile_cons,
        listingLine_indentation legible.1]
      split
      · rw [ih legible.2, List.map_cons]
      · rfl

end Listing

-- The number in the line was counted in the group, which is printed under it.
theorem group_line {gates : List (Gate Float)} {depth : Nat}
    (legible : AllLegible (Gate.listingOf depth gates)) {before after : List String} {line : String}
    (split : (Gate.listingOf depth gates).map listingLine = before ++ line :: after)
    (group : isGroupLine line = true) :
    ∃ name : String, Solid name.toList ∧
      line = String.ofList (List.replicate (2 * indentation line) ' ') ++
        (name ++ " [" ++ toString (operationsUnder line after) ++ " gates]") := by
  obtain ⟨front, rest, whole, rfl, lines⟩ := List.map_eq_append_iff.mp split
  obtain ⟨⟨deep, g⟩, back, rfl, rfl, rfl⟩ := List.map_eq_cons_iff.mp lines
  rw [whole, AllLegible, List.forall_mem_append, List.forall_mem_cons] at legible
  obtain ⟨-, own, behind⟩ := legible
  rw [listingLine_isGroup own] at group
  cases g with
  | standard op => cases group
  | composite name members =>
      have under : AllLegible (back.takeWhile fun e => decide (deep < e.1)) :=
        fun e inside => behind e (List.takeWhile_subset _ inside)
      refine ⟨name, own, ?_⟩
      rw [operationsUnder, operationLines, listingLine_indentation own, lines_takeWhile behind,
        lines_count under fun line => !line.2, Gate.count_under whole]
      rfl

/-- The listing of an accepted program determines its gates. The line of each group has the number
of operations under it, and the summary those of all gates and all operations. -/
theorem listing_lossless :
    (∀ config config' text text' p p', (interpret config text).result = .ok p →
      (interpret config' text').result = .ok p' → listingLines p = listingLines p' →
      p.gates = p'.gates) ∧
    ∀ config text p, (interpret config text).result = .ok p →
      (listingLines p).map (fun line => (indentation line, isGroupLine line)) =
        (Gate.listingOf 1 p.gates).map (fun e => (e.1, e.2.isGroup)) ∧
      (∀ before line after, listingLines p = before ++ line :: after → isGroupLine line = true →
        ∃ name : String, Solid name.toList ∧
          line = String.ofList (List.replicate (2 * indentation line) ' ') ++
            (name ++ " [" ++ toString (operationsUnder line after) ++ " gates]")) ∧
      ∀ input, (summaryLines input p)[2]? = some ("  Gates:  " ++
        toString ((listingLines p).countP fun line => indentation line == 1) ++ " top-level, " ++
        toString (operationLines (listingLines p)) ++ " after expansion") := by
  constructor
  · intro config config' text text' p p' accepted accepted' same
    have shown := lines_shown (accepted_legible accepted) (accepted_legible accepted') same
    exact Gate.shown_injective shown
  · intro config text p accepted
    have legible := accepted_legible accepted
    refine ⟨lines_read legible, fun before line after split group => group_line legible split group,
      fun input => ?_⟩
    have top : (listingLines p).countP (fun line => indentation line == 1) = p.gates.length :=
      (lines_count legible fun line => line.1 == 1).trans (Gate.count_top p.gates 1)
    have operations : operationLines (listingLines p) = p.primitiveCount :=
      (lines_count legible fun line => !line.2).trans (Gate.count_operations p.gates 1)
    rw [top, operations]
    rfl

theorem listing_lossless_misleading_names :
    let looped := "init 2\ndef gates] $q\nH $q\nendef\ndef H1\nfor $i 1:2\ngates] $i\nendfor\n" ++
      "endef\ndef none\nendef\nH1\nnone\nCX 2 | 1"
    let plain := "init 3\ndef gates] $q\nH $q\nendef\ndef H1\ngates] 1\ngates] 2\nendef\n" ++
      "def none\nendef\nH1\nnone\nCX 4/2 | 1"
    let listing := ["  H1 [2 gates]", "    gates] [1 gates]", "      H 1", "    gates] [1 gates]",
      "      H 2", "  none [0 gates]", "  CX 2 | 1"]
    ∃ p p' : Program, (interpret ⟨24⟩ looped).result = .ok p ∧
      (interpret ⟨30⟩ plain).result = .ok p' ∧ listingLines p = listing ∧
      listingLines p' = listing ∧ p.gates = p'.gates ∧
      (summaryLines "a" p)[2]? = some "  Gates:  3 top-level, 3 after expansion" := by
  intro looped plain listing
  have listed : (interpret ⟨24⟩ looped).result.toOption.map listingLines = some listing := by
    decide +kernel
  have listed' : (interpret ⟨30⟩ plain).result.toOption.map listingLines = some listing := by
    decide +kernel
  have accepted : ∀ {result : Except Fault Program},
      result.toOption.map listingLines = some listing →
        ∃ p, result = .ok p ∧ listingLines p = listing := by
    rintro (fault | p) listed
    · cases listed
    · exact ⟨p, rfl, Option.some.inj listed⟩
  obtain ⟨p, ran, lines⟩ := accepted listed
  obtain ⟨p', ran', lines'⟩ := accepted listed'
  obtain ⟨lossless, counts⟩ := listing_lossless
  have summary := (counts _ _ p ran).2.2 "a"
  rw [lines] at summary
  refine ⟨p, p', ran, ran', lines, lines', ?_, ?_⟩
  · exact lossless _ _ _ _ p p' ran ran' (lines.trans lines'.symm)
  · rw [summary]
    decide +kernel

end CommandLine
end QCircuit
