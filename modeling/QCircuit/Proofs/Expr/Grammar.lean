import QCircuit.Proofs.Expr.Munch
/-! The grammar of expressions.

A sum is products with `+` or `-` between them, a product is signed operands with `*` or `/` between
them, and both group to the left. The reader keeps what it has not finished on a stack. From a
derivation one sees how its tokens are read, whatever lies below on the stack; and from a stack, which
tokens have led to it and which phrase they wait for. So the reader accepts exactly the sums of the
grammar, and each list of tokens is a sum in at most one way. -/
namespace QCircuit.Expr

/-- The phrases of the grammar, the loosest first. -/
inductive Phrase where
  | sum
  | product
  | signed
deriving DecidableEq

/-- The tokens are a phrase, and this is its tree. -/
inductive Derives : Phrase → List Token → Expr → Prop where
  | product {ts : List Token} {e : Expr} (whole : Derives .product ts e) : Derives .sum ts e
  | add {left right : List Token} {l r : Expr} (first : Derives .sum left l)
      (second : Derives .product right r) :
      Derives .sum (left ++ .plus :: right) (.binary .add l r)
  | subtract {left right : List Token} {l r : Expr} (first : Derives .sum left l)
      (second : Derives .product right r) :
      Derives .sum (left ++ .minus :: right) (.binary .sub l r)
  | signed {ts : List Token} {e : Expr} (whole : Derives .signed ts e) : Derives .product ts e
  | multiply {left right : List Token} {l r : Expr} (first : Derives .product left l)
      (second : Derives .signed right r) :
      Derives .product (left ++ .star :: right) (.binary .mul l r)
  | divide {left right : List Token} {l r : Expr} (first : Derives .product left l)
      (second : Derives .signed right r) :
      Derives .product (left ++ .slash :: right) (.binary .div l r)
  | negative {ts : List Token} {e : Expr} (inner : Derives .signed ts e) :
      Derives .signed (.minus :: ts) (.negate e)
  | positive {ts : List Token} {e : Expr} (inner : Derives .signed ts e) :
      Derives .signed (.plus :: ts) e
  | number (value : Float) : Derives .signed [.number value] (.number value)
  | pi : Derives .signed [.pi] .pi
  | var (name : String) : Derives .signed [.var name] (.var name)
  | group {ts : List Token} {e : Expr} (inner : Derives .sum ts e) :
      Derives .signed (.leftParen :: (ts ++ [.rightParen])) e

theorem Derives.loose {left right : List Token} {l r : Expr} {t : Token} {op : BinaryOp}
    (named : binaryOp? t = some op) (level : op.level = 0) (first : Derives .sum left l)
    (second : Derives .product right r) : Derives .sum (left ++ t :: right) (.binary op l r) := by
  cases t <;> cases named
  · exact .add first second
  · exact .subtract first second
  · cases level
  · cases level

theorem Derives.tight {left right : List Token} {l r : Expr} {t : Token} {op : BinaryOp}
    (named : binaryOp? t = some op) (level : op.level = 1) (first : Derives .product left l)
    (second : Derives .signed right r) :
    Derives .product (left ++ t :: right) (.binary op l r) := by
  cases t <;> cases named
  · cases level
  · cases level
  · exact .multiply first second
  · exact .divide first second

theorem level_cases (op : BinaryOp) : op.level = 0 ∨ op.level = 1 := by
  cases op
  · exact .inl rfl
  · exact .inl rfl
  · exact .inr rfl
  · exact .inr rfl

/-! ### From derivations to the reader -/

/-- An operand that comes onto the stack finishes nothing there, and an operator of this level does
not either. -/
def Settled (level : Nat) : List Frame → Prop
  | [] => True
  | .group :: _ => True
  | .negate :: _ => False
  | .binary op _ :: _ => op.level < level

theorem Settled.applySigns {level : Nat} {stack : List Frame} (settled : Settled level stack)
    (e : Expr) : applySigns stack e = ⟨stack, some e⟩ := by
  cases stack with
  | nil => rfl
  | cons frame rest =>
      cases frame with
      | group => rfl
      | negate => exact settled.elim
      | binary op left => rfl

theorem Settled.finishTo {level : Nat} {stack : List Frame} (settled : Settled level stack)
    (e : Expr) : finishTo level stack e = (stack, e) := by
  cases stack with
  | nil => rfl
  | cons frame rest =>
      cases frame with
      | group => rfl
      | negate => rfl
      | binary op left => exact if_neg (Nat.not_le.mpr settled)

theorem Settled.finishTo_binary {level : Nat} {stack : List Frame} {op : BinaryOp}
    (settled : Settled level stack) (reached : level ≤ op.level) (l e : Expr) :
    Expr.finishTo level (.binary op l :: stack) e = (stack, .binary op l e) := by
  rw [Expr.finishTo, if_pos reached, settled.finishTo]

theorem Settled.mono {low high : Nat} (less : low ≤ high) {stack : List Frame}
    (settled : Settled low stack) : Settled high stack := by
  cases stack with
  | nil => trivial
  | cons frame rest =>
      cases frame with
      | group => trivial
      | negate => exact settled
      | binary op left => exact Nat.lt_of_lt_of_le settled less

-- What binds tighter is finished first.
theorem finishTo_finishTo {low high : Nat} (less : low ≤ high) (stack : List Frame) (e : Expr) :
    finishTo low (finishTo high stack e).1 (finishTo high stack e).2 = finishTo low stack e := by
  induction stack generalizing e with
  | nil => rfl
  | cons frame rest ih =>
      cases frame with
      | group => rfl
      | negate => rfl
      | binary op left =>
          by_cases tight : high ≤ op.level
          · have tight' : low ≤ op.level := le_trans less tight
            simp only [finishTo, if_pos tight, if_pos tight']
            exact ih _
          · have stays : finishTo high (.binary op left :: rest) e = (.binary op left :: rest, e) :=
              if_neg tight
            rw [stays]

/-- How the tokens of a phrase with this tree are read. Signs below on the stack are applied to a
signed operand at once; a sum or a product may leave operators on the stack that are finished next. -/
def ReadsAs : Phrase → List Token → Expr → Prop
  | .signed, ts, e => ∀ stack, ts.foldlM step ⟨stack, none⟩ = .ok (applySigns stack e)
  | .product, ts, e => ∀ stack, Settled 1 stack → ∃ later last,
      ts.foldlM step ⟨stack, none⟩ = .ok ⟨later, some last⟩ ∧ finishTo 1 later last = (stack, e)
  | .sum, ts, e => ∀ stack, Settled 0 stack → ∃ later last,
      ts.foldlM step ⟨stack, none⟩ = .ok ⟨later, some last⟩ ∧ finishTo 0 later last = (stack, e)

theorem step_operator {t : Token} {op : BinaryOp} (named : binaryOp? t = some op)
    {later stack : List Frame} {last e : Expr} (finished : finishTo op.level later last = (stack, e)) :
    step ⟨later, some last⟩ t = .ok ⟨.binary op e :: stack, none⟩ := by
  simp only [step, readOperator, named, finished]

theorem reads_loose {left right : List Token} {l r : Expr} {t : Token} {op : BinaryOp}
    (named : binaryOp? t = some op) (level : op.level = 0) (first : ReadsAs .sum left l)
    (second : ReadsAs .product right r) : ReadsAs .sum (left ++ t :: right) (.binary op l r) := by
  intro stack settled
  obtain ⟨later, last, ran, finished⟩ := first stack settled
  have below : Settled 1 (.binary op l :: stack) := by
    rw [Settled, level]
    exact Nat.zero_lt_one
  obtain ⟨later', last', ran', finished'⟩ := second _ below
  refine ⟨later', last', ?_, ?_⟩
  · rw [← level] at finished
    rw [List.foldlM_append, ran]
    simp only [List.foldlM_cons, bind, Except.bind, step_operator named finished, ran']
  · rw [← finishTo_finishTo (Nat.zero_le 1), finished', settled.finishTo_binary (Nat.zero_le _)]

theorem reads_tight {left right : List Token} {l r : Expr} {t : Token} {op : BinaryOp}
    (named : binaryOp? t = some op) (level : op.level = 1) (first : ReadsAs .product left l)
    (second : ReadsAs .signed right r) :
    ReadsAs .product (left ++ t :: right) (.binary op l r) := by
  intro stack settled
  obtain ⟨later, last, ran, finished⟩ := first stack settled
  refine ⟨.binary op l :: stack, r, ?_, ?_⟩
  · rw [← level] at finished
    have ran' := second (.binary op l :: stack)
    rw [List.foldlM_append, ran]
    simp only [List.foldlM_cons, bind, Except.bind, step_operator named finished, ran']
    rfl
  · exact settled.finishTo_binary level.ge l r

theorem Derives.reads {phrase : Phrase} {ts : List Token} {e : Expr}
    (derived : Derives phrase ts e) : ReadsAs phrase ts e := by
  induction derived with
  | @product ts e _ ih =>
      intro stack settled
      obtain ⟨later, last, ran, finished⟩ := ih stack (settled.mono (Nat.zero_le 1))
      refine ⟨later, last, ran, ?_⟩
      rw [← finishTo_finishTo (Nat.zero_le 1), finished]
      exact settled.finishTo e
  | add _ _ first second => exact reads_loose rfl rfl first second
  | subtract _ _ first second => exact reads_loose rfl rfl first second
  | @signed ts e _ ih =>
      intro stack settled
      exact ⟨stack, e, (ih stack).trans (congrArg Except.ok (settled.applySigns e)),
        settled.finishTo e⟩
  | multiply _ _ first second => exact reads_tight rfl rfl first second
  | divide _ _ first second => exact reads_tight rfl rfl first second
  | @negative ts e _ ih => exact fun stack => ih (.negate :: stack)
  | positive _ ih => exact fun stack => ih stack
  | number value => exact fun stack => rfl
  | pi => exact fun stack => rfl
  | var name => exact fun stack => rfl
  | @group ts e _ ih =>
      intro stack
      obtain ⟨later, last, ran, finished⟩ := ih (.group :: stack) trivial
      have opened : step ⟨stack, none⟩ .leftParen = .ok ⟨.group :: stack, none⟩ := rfl
      have closed : step ⟨later, some last⟩ .rightParen = .ok (applySigns stack e) := by
        simp only [step, readOperator, binaryOp?, finished, if_true]
      simp only [List.foldlM_cons, List.foldlM_append, List.foldlM_nil, bind, Except.bind, opened,
        ran, closed, pure, Except.pure]

theorem Derives.ofTokens {ts : List Token} {e : Expr} (derived : Derives .sum ts e) :
    ofTokens ts = .ok e := by
  obtain ⟨later, last, ran, finished⟩ := derived.reads [] trivial
  have some : ts ≠ [] := by
    rintro rfl
    cases ran
  simp only [Expr.ofTokens, if_neg some, ran, bind, Except.bind, finish, finished]

/-! ### From the reader to derivations -/

/-- The tokens have led to the stack, and a phrase of this kind has to follow. -/
inductive Awaits : List Frame → List Token → Phrase → Prop where
  | start : Awaits [] [] .sum
  | product {stack : List Frame} {ts : List Token} (loose : Awaits stack ts .sum) :
      Awaits stack ts .product
  | signed {stack : List Frame} {ts : List Token} (loose : Awaits stack ts .product) :
      Awaits stack ts .signed
  | negative {stack : List Frame} {ts : List Token} (before : Awaits stack ts .signed) :
      Awaits (.negate :: stack) (ts ++ [.minus]) .signed
  | positive {stack : List Frame} {ts : List Token} (before : Awaits stack ts .signed) :
      Awaits stack (ts ++ [.plus]) .signed
  | group {stack : List Frame} {ts : List Token} (before : Awaits stack ts .signed) :
      Awaits (.group :: stack) (ts ++ [.leftParen]) .sum
  | addend {stack : List Frame} {ts left : List Token} {l : Expr} {t : Token} {op : BinaryOp}
      (named : binaryOp? t = some op) (level : op.level = 0) (before : Awaits stack ts .sum)
      (first : Derives .sum left l) : Awaits (.binary op l :: stack) (ts ++ left ++ [t]) .product
  | factor {stack : List Frame} {ts left : List Token} {l : Expr} {t : Token} {op : BinaryOp}
      (named : binaryOp? t = some op) (level : op.level = 1) (before : Awaits stack ts .product)
      (first : Derives .product left l) : Awaits (.binary op l :: stack) (ts ++ left ++ [t]) .signed

/-- The tokens have led to the stack with a phrase of this kind behind it. -/
def Holds (phrase : Phrase) (r : List Frame × Expr) (ts : List Token) : Prop :=
  ∃ front operand, ts = front ++ operand ∧ Awaits r.1 front phrase ∧ Derives phrase operand r.2

/-- The tokens have led to what has been read. -/
def Reading.Follows (r : Reading) (ts : List Token) : Prop :=
  match r.operand? with
  | none => Awaits r.stack ts .signed
  | some e => Holds .product (finishTo 1 r.stack e) ts

theorem Awaits.settled_sum {stack : List Frame} {ts : List Token}
    (awaits : Awaits stack ts .sum) : Settled 0 stack := by
  cases awaits with
  | start => trivial
  | group => trivial

theorem Awaits.settled_product {stack : List Frame} {ts : List Token}
    (awaits : Awaits stack ts .product) : Settled 1 stack := by
  cases awaits with
  | product loose => exact loose.settled_sum.mono (Nat.zero_le 1)
  | addend _ level =>
      rw [Settled, level]
      exact Nat.zero_lt_one

theorem Awaits.follows {stack : List Frame} {front operand : List Token} {e : Expr}
    (awaits : Awaits stack front .signed) (derived : Derives .signed operand e) :
    (applySigns stack e).Follows (front ++ operand) := by
  generalize kind : Phrase.signed = phrase at awaits
  induction awaits generalizing operand e with
  | start => cases kind
  | product => cases kind
  | signed loose =>
      have settled := loose.settled_product
      rw [settled.applySigns]
      show Holds .product (finishTo 1 _ e) _
      rw [settled.finishTo]
      exact ⟨_, operand, rfl, loose, .signed derived⟩
  | @negative stack ts before ih =>
      have signs := ih (.negative derived) rfl
      rwa [List.append_assoc]
  | @positive stack ts before ih =>
      have signs := ih (.positive derived) rfl
      rwa [List.append_assoc]
  | group => cases kind
  | addend => cases kind
  | @factor stack ts left l t op named level before first =>
      show Holds .product (finishTo 1 (.binary op l :: stack) e) _
      rw [before.settled_product.finishTo_binary level.ge]
      exact ⟨ts, left ++ t :: operand, by simp, before, .tight named level first derived⟩

theorem Holds.sum {stack : List Frame} {e : Expr} {ts : List Token}
    (holds : Holds .product (finishTo 1 stack e) ts) : Holds .sum (finishTo 0 stack e) ts := by
  rw [← finishTo_finishTo (Nat.zero_le 1)]
  obtain ⟨front, operand, rfl, awaits, derived⟩ := holds
  generalize finishTo 1 stack e = r at awaits derived
  obtain ⟨below, last⟩ := r
  cases awaits with
  | product loose =>
      rw [loose.settled_sum.finishTo]
      exact ⟨front, operand, rfl, loose, .product derived⟩
  | @addend below ts left l t op named level before first =>
      rw [before.settled_sum.finishTo_binary (Nat.zero_le _)]
      exact ⟨ts, left ++ t :: operand, by simp, before, .loose named level first derived⟩

theorem follows_operand {stack : List Frame} {ts : List Token} (awaits : Awaits stack ts .signed)
    {t : Token} {r : Reading} (read : readOperand stack t = .ok r) : r.Follows (ts ++ [t]) := by
  cases t with
  | number value =>
      cases read
      exact awaits.follows (.number value)
  | pi =>
      cases read
      exact awaits.follows .pi
  | var name =>
      cases read
      exact awaits.follows (.var name)
  | minus =>
      cases read
      exact .negative awaits
  | plus =>
      cases read
      exact .positive awaits
  | leftParen =>
      cases read
      exact .signed (.product (.group awaits))
  | star => cases read
  | slash => cases read
  | rightParen => cases read

theorem follows_operator {stack : List Frame} {e : Expr} {ts : List Token}
    (holds : Holds .product (finishTo 1 stack e) ts) {t : Token} {r : Reading}
    (read : readOperator stack e t = .ok r) : r.Follows (ts ++ [t]) := by
  have sum := holds.sum
  unfold readOperator at read
  cases named : binaryOp? t with
  | some op =>
      rw [named] at read
      cases read
      rcases level_cases op with level | level
      · obtain ⟨front, operand, rfl, awaits, derived⟩ := sum
        rw [← level] at awaits derived
        exact .signed (.addend named level awaits derived)
      · obtain ⟨front, operand, rfl, awaits, derived⟩ := holds
        rw [← level] at awaits derived
        exact .factor named level awaits derived
  | none =>
      rw [named] at read
      generalize finishTo 0 stack e = finished at sum read
      obtain ⟨below, inner⟩ := finished
      obtain ⟨front, operand, rfl, awaits, derived⟩ := sum
      cases awaits with
      | start => cases read
      | @group outer ts before =>
          by_cases closes : t = .rightParen
          · simp only [if_pos closes, Except.ok.injEq] at read
            subst closes read
            have closed := before.follows (.group derived)
            simpa using closed
          · simp only [if_neg closes, reduceCtorEq] at read

theorem follows_step {r r' : Reading} {ts : List Token} (follows : r.Follows ts) {t : Token}
    (read : step r t = .ok r') : r'.Follows (ts ++ [t]) := by
  obtain ⟨stack, operand?⟩ := r
  cases operand? with
  | none => exact follows_operand follows read
  | some e => exact follows_operator follows read

theorem follows_run {r r' : Reading} {front ts : List Token} (follows : r.Follows front)
    (read : ts.foldlM step r = .ok r') : r'.Follows (front ++ ts) := by
  induction ts generalizing r front with
  | nil =>
      cases read
      rwa [List.append_nil]
  | cons t rest ih =>
      rw [List.foldlM_cons, bind_eq_ok] at read
      obtain ⟨next, first, later⟩ := read
      have whole := ih (follows_step follows first) later
      rwa [List.append_assoc] at whole

theorem derives_of_ofTokens {ts : List Token} {e : Expr} (read : ofTokens ts = .ok e) :
    Derives .sum ts e := by
  unfold ofTokens at read
  split at read
  · cases read
  · obtain ⟨⟨stack, operand?⟩, ran, last⟩ := bind_eq_ok.mp read
    have begins : Reading.Follows ⟨[], none⟩ [] := Awaits.signed (.product .start)
    have follows := follows_run begins ran
    cases operand? with
    | none => cases last
    | some e' =>
        have sum := Holds.sum follows
        simp only [finish] at sum last
        generalize finishTo 0 stack e' = finished at sum last
        obtain ⟨below, whole⟩ := finished
        obtain ⟨front, operand, same, awaits, derived⟩ := sum
        cases awaits with
        | start =>
            cases last
            rwa [← List.nil_append ts, same]
        | group => cases last

theorem ofTokens_eq_ok_iff {ts : List Token} {e : Expr} :
    ofTokens ts = .ok e ↔ Derives .sum ts e := ⟨derives_of_ofTokens, Derives.ofTokens⟩

/-- A text is read exactly if it is cut into longest tokens that are a sum of the grammar, and it is
read as the tree of the sum. Neither the tokens nor the tree could be others. -/
theorem parse_eq_ok_iff_derives :
    (∀ (text : String) (e : Expr),
      parse text = .ok e ↔ ∃ ts, Munches text.toList ts ∧ Derives .sum ts e) ∧
      (∀ (cs : List Char) (ts ts' : List Token), Munches cs ts → Munches cs ts' → ts = ts') ∧
      ∀ (ts : List Token) (e e' : Expr), Derives .sum ts e → Derives .sum ts e' → e = e' := by
  refine ⟨fun text e => ?_, fun cs ts ts' cut cut' => ?_, fun ts e e' derived derived' => ?_⟩
  · simp only [parse_eq_ok, tokens?_eq_some_iff, ofTokens_eq_ok_iff]
  · have same := (tokens?_of_munches cut).symm.trans (tokens?_of_munches cut')
    exact Option.some.inj same
  · have same := derived.ofTokens.symm.trans derived'.ofTokens
    exact Except.ok.inj same

end QCircuit.Expr
