/-
This file shows that the grammar reads the spellings of signatures that are allowed and no others.
-/

import MachineEmulator.Proof.Evmu.ReadParams

namespace MachineEmulator.Evmu

open Peg Grammar

section Parameters

/-- An expression reads a parameter in front of a comma or a closing parenthesis, or gets stuck. -/
structure ReadsParam (read : Grammar Component) (param : Param) : Prop where
  allowed : param.Allowed → ∀ rest, Closed rest →
    ∃ left, read (param.text ++ rest) = some (param.value, left) ∧ Leaves rest left
  refused : ¬ param.Allowed → ∀ rest, Closed rest → ∀ value left,
    read (param.text ++ rest) = some (value, left) → ¬ Closed left

/-- What is read of the parameters behind the first one. -/
def nextComponent (typeSpec : Grammar Component) : Grammar Component := do
  keyword ","
  let _ ← opsp
  typeSpec

theorem nextComponent_none {text : List Byte} (other : text.head? ≠ some 0x2c)
    (typeSpec : Grammar Component) : nextComponent typeSpec text = none :=
  bind_none (keyword_none_of_ne (by decide : ascii "," = [0x2c]) other)

theorem comma_stays {text : List Byte} (comma : text.head? = some 0x2c) : skip text = text := by
  apply skip_of_stops
  simp only [Stops, comma]
  decide

theorem not_comma {text : List Byte} (stuck : ¬ Closed text) : text.head? ≠ some 0x2c :=
  fun comma => stuck (.inl ((comma_stays comma).symm ▸ comma))

def More.count : More → Nat
  | .last _ => 0
  | .next _ _ more => more.count + 1

/-- The parameters behind the first one are read up to the parenthesis. -/
structure ReadsMore (read : Grammar Component) (more : More) : Prop where
  allowed : more.Allowed → ∀ rest state fuel, Leaves (more.text ++ rest) state →
    more.count ≤ fuel → ∃ values left,
      repeated (nextComponent read) fuel state = some (values, left) ∧
      skip left = ascii ")" ++ rest ∧ toComponents values = more.value
  refused : ¬ more.Allowed → ∀ rest state fuel, Leaves (more.text ++ rest) state →
    more.count ≤ fuel → ∃ values left,
      repeated (nextComponent read) fuel state = some (values, left) ∧
      (skip left).head? ≠ some 0x29

/-- The parameters between parentheses are read or not. -/
structure ReadsParams (read : Grammar Component) (params : Params) : Prop where
  allowed : params.Allowed → ∀ rest,
    tupleOf read (params.text ++ rest) = some (params.value, rest)
  refused : ¬ params.Allowed → ∀ rest, tupleOf read (params.text ++ rest) = none

theorem skip_closed (gap : Spaces) (rest : List Byte) :
    skip (gap.val ++ (ascii ")" ++ rest)) = ascii ")" ++ rest := by
  rw [skip_spaces]
  exact skip_of_stops rfl

theorem Params.opening (params : Params) : ∃ inner, params.text = ascii "(" ++ inner := by
  cases params <;> exact ⟨_, rfl⟩

/-- A parameter starts with a letter or a parenthesis. -/
theorem Param.first (param : Param) : ∃ symbol behind, param.text = symbol :: behind ∧
    (isIdfirst symbol = true ∨ symbol = 0x28) := by
  cases param with
  | atom atom gap brackets tail =>
      cases atom <;> exact ⟨_, _, rfl, .inl (by decide)⟩
  | tuple params gap brackets tail =>
      obtain ⟨inner, text⟩ := params.opening
      exact ⟨0x28, _, by rw [Param.text, text]; rfl, .inr rfl⟩

theorem Param.stops {test : Byte → Bool} (letters : ∀ symbol, isIdfirst symbol = true →
      test symbol = false) (opening : test 0x28 = false) (param : Param) (rest : List Byte) :
    Stops test (param.text ++ rest) := by
  obtain ⟨symbol, behind, text, letter | rfl⟩ := param.first
  · simpa [Stops, text] using letters symbol letter
  · simpa [Stops, text] using opening

theorem Param.stays (param : Param) (rest : List Byte) :
    skip (param.text ++ rest) = param.text ++ rest := by
  apply skip_of_stops
  apply param.stops _ (by decide)
  intro symbol letter
  rw [isIdfirst_iff] at letter
  rw [← Bool.not_eq_true, isOpsp_iff]
  omega

theorem Param.not_closing (param : Param) (rest : List Byte) :
    (param.text ++ rest).head? ≠ some 0x29 := by
  obtain ⟨symbol, behind, text, letter | rfl⟩ := param.first
  · rw [isIdfirst_iff] at letter
    simp [text, BitVec.toNat_eq]
    omega
  · simp [text]

theorem More.next_text (gap : Spaces) (param : Param) (more : More) (rest : List Byte) :
    (More.next gap param more).text ++ rest =
      ascii "," ++ (gap.val ++ (param.text ++ (more.text ++ rest))) := by
  simp [More.text]

theorem More.next_stays (gap : Spaces) (param : Param) (more : More) (rest : List Byte) :
    skip ((More.next gap param more).text ++ rest) = (More.next gap param more).text ++ rest := by
  apply skip_of_stops
  rw [More.next_text]
  rfl

theorem More.closed (more : More) (rest : List Byte) : Closed (more.text ++ rest) := by
  cases more with
  | last gap =>
      right
      rw [More.text, List.append_assoc, skip_closed]
      rfl
  | next gap param more =>
      left
      rw [More.next_stays, More.next_text]
      rfl

theorem nextComponent_text (read : Grammar Component) (gap : Spaces) (param : Param) (more : More)
    (rest : List Byte) : nextComponent read ((More.next gap param more).text ++ rest) =
      read (param.text ++ (more.text ++ rest)) := by
  rw [More.next_text, nextComponent, bind_some (keyword_append _ _), opsp_bind, skip_spaces,
    param.stays]

theorem readsMore_last (read : Grammar Component) (gap : Spaces) :
    ReadsMore read (.last gap) where
  allowed := by
    intro _ rest state fuel leaves _
    have skipped : skip state = ascii ")" ++ rest := by
      rw [leaves.skip, More.text, List.append_assoc, skip_closed]
    have other : state.head? ≠ some 0x2c := by
      intro comma
      rw [← comma_stays comma, skipped] at comma
      exact absurd comma (by simp [show ascii ")" = [0x29] by decide])
    exact ⟨[], state, repeated_none (nextComponent_none other read) fuel, skipped, rfl⟩
  refused := fun refused => absurd trivial refused

theorem readsMore_next {read : Grammar Component} {gap : Spaces} {param : Param} {more : More}
    (first : ReadsParam read param) (rest : ReadsMore read more) :
    ReadsMore read (.next gap param more) := by
  have whole {behind state : List Byte} (leaves : Leaves ((More.next gap param more).text ++ behind)
      state) : state = (More.next gap param more).text ++ behind := by
    rcases leaves with same | skipped
    · exact same
    · rw [skipped, More.next_stays]
  constructor
  · intro allowed behind state fuel leaves enough
    obtain ⟨fuel, rfl⟩ := Nat.exists_eq_add_of_lt (Nat.lt_of_succ_le enough)
    obtain ⟨left, taken, leavesLeft⟩ := first.allowed allowed.1 _ (more.closed behind)
    obtain ⟨values, last, found, closing, value⟩ :=
      rest.allowed allowed.2 behind left (more.count + fuel) leavesLeft (Nat.le_add_right _ _)
    refine ⟨param.value :: values, last, ?_, closing, ?_⟩
    · rw [whole leaves]
      exact repeated_some ((nextComponent_text read gap param more behind).trans taken) found
    · rw [toComponents.eq_def, More.value, ← value]
  · intro refused behind state fuel leaves enough
    obtain ⟨fuel, rfl⟩ := Nat.exists_eq_add_of_lt (Nat.lt_of_succ_le enough)
    rw [whole leaves]
    by_cases allowed : param.Allowed
    · obtain ⟨left, taken, leavesLeft⟩ := first.allowed allowed _ (more.closed behind)
      obtain ⟨values, last, found, stuck⟩ :=
        rest.refused (fun more => refused ⟨allowed, more⟩) behind left
        (more.count + fuel) leavesLeft
          (Nat.le_add_right _ _)
      exact ⟨param.value :: values, last,
        repeated_some ((nextComponent_text read gap param more behind).trans taken) found, stuck⟩
    · cases taken : read (param.text ++ (more.text ++ behind)) with
      | none =>
          have missed := (nextComponent_text read gap param more behind).trans taken
          refine ⟨[], _, repeated_none missed _, ?_⟩
          rw [More.next_stays, More.next_text]
          simp [show ascii "," = [0x2c] by decide]
      | some answer =>
          obtain ⟨value, left⟩ := answer
          have stuck := first.refused allowed _ (more.closed behind) value left taken
          have ends := repeated_none (nextComponent_none (not_comma stuck) read) (more.count + fuel)
          exact ⟨[value], left,
            repeated_some ((nextComponent_text read gap param more behind).trans taken) ends,
            fun closing => stuck (.inr closing)⟩

/-- What is read behind the opening parenthesis and its spaces. -/
def behindOpening (read : Grammar Component) : Grammar Components := do
  let components ← optional (nonEmptyComponentList read)
  let _ ← opsp
  keyword ")"
  return toComponents (components.getD [])

theorem tupleOf_opening (read : Grammar Component) (gap : Spaces) (inner : List Byte) :
    tupleOf read (ascii "(" ++ (gap.val ++ inner)) = behindOpening read (skip inner) := by
  rw [tupleOf, bind_some (keyword_append _ _), opsp_bind, skip_spaces]
  rfl

theorem closing_none {text : List Byte} (other : text.head? ≠ some 0x29) :
    keyword ")" text = none :=
  keyword_none_of_ne (by decide : ascii ")" = [0x29]) other

/-- Where there is no list, the parenthesis closes at once or not at all. -/
theorem behindOpening_none {read : Grammar Component} {text : List Byte}
    (missed : read text = none) :
    behindOpening read text = (do
      keyword ")"
      return Components.nil : Grammar Components) (skip text) := by
  have list : nonEmptyComponentList read text = none := bind_none missed
  rw [behindOpening, bind_some (optional_none list), opsp_bind]
  rfl

theorem behindOpening_some {read : Grammar Component} {text left last : List Byte}
    {first : Component} {values : List Component} (found : read text = some (first, left))
    (more : many (nextComponent read) (skip left) = some (values, last)) :
    behindOpening read text = (do
      keyword ")"
      return toComponents (first :: values) : Grammar Components) (skip last) := by
  have list : nonEmptyComponentList read text = some (first :: values, last) := by
    rw [nonEmptyComponentList, bind_some found, opsp_bind]
    exact bind_some more
  rw [behindOpening, bind_some (optional_some list), opsp_bind]
  rfl

theorem readsParams_empty {read : Grammar Component}
    (closing : ∀ rest, read (ascii ")" ++ rest) = none)
    (gap : Spaces) : ReadsParams read (.empty gap) where
  allowed := by
    intro _ rest
    have stays : skip (ascii ")" ++ rest) = ascii ")" ++ rest := skip_of_stops rfl
    rw [Params.text, List.append_assoc, List.append_assoc, tupleOf_opening, stays,
      behindOpening_none (closing rest), stays, bind_some (keyword_append _ _)]
    rfl
  refused := fun refused => absurd trivial refused

theorem More.count_le_length : ∀ more : More, more.count ≤ more.text.length
  | .last gap => Nat.zero_le _
  | .next gap param more => by
      have inner := more.count_le_length
      have comma : (ascii ",").length = 1 := by decide
      simp only [More.count, More.text, List.length_append]
      omega

theorem More.count_le (more : More) (rest : List Byte) :
    more.count ≤ (skip (more.text ++ rest)).length := by
  cases more with
  | last gap => exact Nat.zero_le _
  | next gap param more =>
      have fewer := (More.next gap param more).count_le_length
      rw [More.next_stays, List.length_append]
      omega

theorem readsParams_list {read : Grammar Component} {gap gapBehind : Spaces}
    {first : Param} {more : More}
    (readsFirst : ReadsParam read first) (readsMore : ReadsMore read more) :
    ReadsParams read (.list gap first gapBehind more) := by
  have closed (rest : List Byte) : Closed (gapBehind.val ++ (more.text ++ rest)) := by
    have inner := more.closed rest
    rwa [Closed, ← skip_spaces gapBehind] at inner
  have opened (rest : List Byte) :
      tupleOf read ((Params.list gap first gapBehind more).text ++ rest) =
      behindOpening read (first.text ++ (gapBehind.val ++ (more.text ++ rest))) := by
    have split : (Params.list gap first gapBehind more).text ++ rest =
        ascii "(" ++ (gap.val ++ (first.text ++ (gapBehind.val ++ (more.text ++ rest)))) := by
      simp [Params.text]
    rw [split, tupleOf_opening, first.stays]
  constructor
  · intro allowed rest
    obtain ⟨left, found, leaves⟩ := readsFirst.allowed allowed.1 _ (closed rest)
    have skipped : skip left = skip (more.text ++ rest) := by rw [leaves.skip, skip_spaces]
    obtain ⟨values, last, others, closing, value⟩ := readsMore.allowed allowed.2 rest _
      (skip (more.text ++ rest)).length (.inr rfl) (more.count_le rest)
    rw [opened, behindOpening_some found (skipped ▸ others), closing,
      bind_some (keyword_append _ _), pure_apply, Params.value, ← value, toComponents.eq_def]
  · intro refused rest
    rw [opened]
    by_cases allowed : first.Allowed
    · obtain ⟨left, found, leaves⟩ := readsFirst.allowed allowed _ (closed rest)
      have skipped : skip left = skip (more.text ++ rest) := by rw [leaves.skip, skip_spaces]
      obtain ⟨values, last, others, stuck⟩ :=
        readsMore.refused (fun more => refused ⟨allowed, more⟩) rest _
          (skip (more.text ++ rest)).length (.inr rfl) (more.count_le rest)
      rw [behindOpening_some found (skipped ▸ others)]
      exact bind_none (closing_none stuck)
    · cases found : read (first.text ++ (gapBehind.val ++ (more.text ++ rest))) with
      | none =>
          rw [behindOpening_none found, first.stays]
          apply bind_none
          exact closing_none (first.not_closing _)
      | some answer =>
          obtain ⟨value, left⟩ := answer
          have stuck := readsFirst.refused allowed _ (closed rest) value left found
          have other : (skip left).head? ≠ some 0x2c := fun comma => stuck (.inl comma)
          have ends : many (nextComponent read) (skip left) = some ([], skip left) :=
            repeated_none (nextComponent_none other read) _
          rw [behindOpening_some found ends, skip_skip]
          exact bind_none (closing_none fun closing => stuck (.inr closing))

theorem readsParam_atom (read : Grammar Component) (atom : Atom) (gap : Spaces)
    (brackets : List Bracket) (tail : Tail) :
    ReadsParam (typeSpecOf read) (.atom atom gap brackets tail) := by
  have split (rest : List Byte) : (Param.atom atom gap brackets tail).text ++ rest =
      atom.text ++ (gap.val ++ (bracketsText brackets ++ (tail.text ++ rest))) := by
    simp [Param.text]
  have taken (rest : List Byte) (closed : Closed rest) :
      elementaryTypeSpec read ((Param.atom atom gap brackets tail).text ++ rest) =
        if Separated gap brackets tail then
          some (atom.type, gap.val ++ (bracketsText brackets ++ (tail.text ++ rest)))
        else none := by
    rw [split, elementary_atom atom (stops_digit_behind gap brackets tail closed)]
    have ends := separated_iff gap brackets tail closed
    split
    · rename_i ahead
      have joined : ¬ Separated gap brackets tail := by
        intro separated
        have stops := ends.mp separated
        rw [Stops, ahead] at stops
        exact Bool.noConfusion stops
      rw [if_neg joined]
    · rename_i stops
      rw [if_pos (ends.mpr (Bool.eq_false_of_not_eq_true stops))]
  constructor
  · intro allowed rest closed
    have elementary := taken rest closed
    rw [if_pos allowed.1] at elementary
    obtain ⟨left, found, leaves⟩ :=
      behindElementary_allowed gap allowed.2.1 allowed.2.2 closed atom.type
    refine ⟨left, ?_, leaves⟩
    rw [typeSpecOf_eq, bind_some elementary]
    exact found
  · intro refused rest closed value left found
    have elementary := taken rest closed
    rw [typeSpecOf_eq] at found
    by_cases separated : Separated gap brackets tail
    · rw [if_pos separated] at elementary
      obtain ⟨other, last, behind, stuck⟩ := behindElementary_refused gap
        (fun behind => refused ⟨separated, behind⟩) closed atom.type
      rw [bind_some elementary, behind, Option.some.injEq, Prod.mk.injEq] at found
      exact found.2 ▸ stuck
    · rw [if_neg separated] at elementary
      rw [bind_none elementary] at found
      simp at found

theorem readsParam_tuple {read : Grammar Component} {params : Params}
    (reads : ReadsParams read params)
    (gap : Spaces) (brackets : List Bracket) (tail : Tail) :
    ReadsParam (typeSpecOf read) (.tuple params gap brackets tail) := by
  have split (rest : List Byte) : (Param.tuple params gap brackets tail).text ++ rest =
      params.text ++ (gap.val ++ (bracketsText brackets ++ (tail.text ++ rest))) := by
    simp [Param.text]
  have elementary (rest : List Byte) : elementaryTypeSpec read (params.text ++ rest) =
      (tupleOf read >>= fun components => pure (.tuple components)) (params.text ++ rest) := by
    obtain ⟨inner, text⟩ := params.opening
    rw [text, List.append_assoc]
    exact elementary_tuple _
  constructor
  · intro allowed rest closed
    obtain ⟨left, found, leaves⟩ := behindElementary_allowed gap allowed.2.1 allowed.2.2 closed
      (.tuple params.value)
    refine ⟨left, ?_, leaves⟩
    rw [split, typeSpecOf_eq,
      bind_some ((elementary _).trans (bind_some (reads.allowed allowed.1 _)))]
    exact found
  · intro refused rest closed value left found
    rw [split, typeSpecOf_eq] at found
    by_cases allowed : params.Allowed
    · obtain ⟨other, last, taken, stuck⟩ := behindElementary_refused gap
        (fun behind => refused ⟨allowed, behind⟩) closed (.tuple params.value)
      rw [bind_some ((elementary _).trans (bind_some (reads.allowed allowed _)))] at found
      rw [taken, Option.some.injEq, Prod.mk.injEq] at found
      exact found.2 ▸ stuck
    · rw [bind_none ((elementary _).trans (bind_none (reads.refused allowed _)))] at found
      simp at found

theorem typeSpec_closing (depth : Nat) (rest : List Byte) :
    typeSpec depth (ascii ")" ++ rest) = none := by
  cases depth with
  | zero => rfl
  | succ depth =>
      rw [typeSpec, typeSpecOf_eq]
      exact bind_none (elementary_none (by decide) (by decide) rest)

mutual

/-- A grammar of enough depth reads the parameters that are allowed and no others. -/
theorem readsParam : ∀ (param : Param) (depth : Nat), param.text.length ≤ depth →
    ReadsParam (typeSpec depth) param
  | .atom atom gap brackets tail, depth, deep => by
      cases depth with
      | zero =>
          obtain ⟨symbol, behind, text, -⟩ := (Param.atom atom gap brackets tail).first
          simp [text] at deep
      | succ depth => exact readsParam_atom (typeSpec depth) atom gap brackets tail
  | .tuple params gap brackets tail, depth, deep => by
      have inside : params.text.length ≤ depth := by
        simp only [Param.text, List.length_append] at deep
        omega
      cases depth with
      | zero =>
          obtain ⟨inner, text⟩ := params.opening
          simp [text, show ascii "(" = [0x28] by decide] at inside
      | succ depth => exact readsParam_tuple (readsParams params depth inside) gap brackets tail

theorem readsParams : ∀ (params : Params) (depth : Nat), params.text.length ≤ depth + 1 →
    ReadsParams (typeSpec depth) params
  | .empty gap, depth, _ => readsParams_empty (typeSpec_closing depth) gap
  | .list gap first gapBehind more, depth, deep => by
      have opening : (ascii "(").length = 1 := by decide
      simp only [Params.text, List.length_append] at deep
      exact readsParams_list (readsParam first depth (by omega)) (readsMore more depth (by omega))

theorem readsMore : ∀ (more : More) (depth : Nat), more.text.length ≤ depth →
    ReadsMore (typeSpec depth) more
  | .last gap, depth, _ => readsMore_last (typeSpec depth) gap
  | .next gap param more, depth, deep => by
      simp only [More.text, List.length_append] at deep
      exact readsMore_next (readsParam param depth (by omega)) (readsMore more depth (by omega))

end

theorem tuple_allowed {params : Params} (allowed : params.Allowed) (rest : List Byte) :
    tuple (params.text ++ rest) = some (params.value, rest) := by
  apply (readsParams params _ _).allowed allowed rest
  rw [List.length_append]
  omega

theorem tuple_refused {params : Params} (refused : ¬ params.Allowed) (rest : List Byte) :
    tuple (params.text ++ rest) = none := by
  apply (readsParams params _ _).refused refused rest
  rw [List.length_append]
  omega

end Parameters

section Signatures

/-- This is the keyword in front of a name. -/
def functionKeyword : Grammar (List Byte) := do
  keyword "function"
  idnot
  opsp

def nameAndSpaces : Grammar (List Byte) := capture do
  let _ ← identifier
  opsp

def returnsClause : Grammar Components := do
  keyword "returns"
  idnot
  let _ ← opsp
  tuple

def behindParams (name : List Byte) (params : Components) : Grammar ParsedFuncSig := do
  let _ ← opsp
  let returns ← optional returnsClause
  let _ ← opsp
  finish
  return ⟨name, params, returns.getD .nil⟩

theorem funcSig_eq : funcSig = (do
    let _ ← opsp
    let _ ← optional functionKeyword
    let name ← nameAndSpaces
    let params ← tuple
    behindParams name params) := rfl

theorem Params.stops {test : Byte → Bool} (opening : test 0x28 = false) (params : Params)
    (rest : List Byte) : Stops test (params.text ++ rest) := by
  obtain ⟨inner, text⟩ := params.opening
  simpa [Stops, text, show ascii "(" = [0x28] by decide] using opening

theorem skip_last (gap : Spaces) : skip gap.val = [] := by
  have skipped := skip_spaces gap []
  rwa [List.append_nil] at skipped

theorem returnsClause_eq (gap : Spaces) (params : Params) (rest : List Byte) :
    returnsClause (ascii "returns" ++ (gap.val ++ (params.text ++ rest))) =
      tuple (params.text ++ rest) := by
  have ends : Stops isIdrest (gap.val ++ (params.text ++ rest)) :=
    stops_gap (fun _ => space_not_idrest) gap (params.stops (by decide) rest)
  rw [returnsClause, bind_some (keyword_append _ _), bind_some (idnot_some ends), opsp_bind,
    skip_spaces, skip_of_stops (params.stops (by decide) rest)]

variable (spelling : Spelling)

theorem behindParams_allowed (name : List Byte) (components : Components)
    (allowed : ∀ clause ∈ spelling.returns, clause.2.Allowed) :
    behindParams name components
        (spelling.gapBehind.val ++ (spelling.returnsText ++ spelling.last.val)) =
      some (⟨name, components,
        (spelling.returns.map fun clause => clause.2.value).getD .nil⟩, []) := by
  rw [behindParams, opsp_bind, skip_spaces]
  cases found : spelling.returns with
  | none =>
      have text : skip (spelling.returnsText ++ spelling.last.val) = [] := by
        rw [Spelling.returnsText, found]
        exact skip_last _
      have missed : returnsClause [] = none := rfl
      rw [text, bind_some (optional_none missed), opsp_bind]
      rfl
  | some clause =>
      obtain ⟨gap, params⟩ := clause
      have text : spelling.returnsText ++ spelling.last.val =
          ascii "returns" ++ (gap.val ++ (params.text ++ spelling.last.val)) := by
        simp [Spelling.returnsText, found]
      have read := returnsClause_eq gap params spelling.last.val
      rw [tuple_allowed (allowed _ found)] at read
      rw [text, skip_of_stops rfl, bind_some (optional_some read), opsp_bind, skip_last]
      rfl

theorem behindParams_refused (name : List Byte) (components : Components)
    (refused : ¬ ∀ clause ∈ spelling.returns, clause.2.Allowed) :
    behindParams name components
      (spelling.gapBehind.val ++ (spelling.returnsText ++ spelling.last.val)) = none := by
  simp only [not_forall] at refused
  obtain ⟨⟨gap, params⟩, found, refused⟩ := refused
  have text : spelling.returnsText ++ spelling.last.val =
      ascii "returns" ++ (gap.val ++ (params.text ++ spelling.last.val)) := by
    simp [Spelling.returnsText, Option.mem_def.mp found]
  have read := returnsClause_eq gap params spelling.last.val
  rw [tuple_refused refused] at read
  have stays : skip (ascii "returns" ++ (gap.val ++ (params.text ++ spelling.last.val))) = _ :=
    skip_of_stops rfl
  rw [behindParams, opsp_bind, skip_spaces, text, stays, bind_some (optional_none read), opsp_bind,
    stays]
  rfl

/-- The name and the spaces behind it are captured together. -/
theorem nameAndSpaces_text (name : Identifier) (gap : Spaces) (params : Params) (rest : List Byte) :
    nameAndSpaces (name.text ++ gap.val ++ (params.text ++ rest)) =
      some (name.text ++ gap.val, params.text ++ rest) := by
  have ends : Stops isIdrest (gap.val ++ (params.text ++ rest)) :=
    stops_gap (fun _ => space_not_idrest) gap (params.stops (by decide) rest)
  have spaces : opsp (gap.val ++ (params.text ++ rest)) = some (gap.val, params.text ++ rest) :=
    span_append gap.property (params.stops (by decide) rest)
  apply capture_some
  rw [List.append_assoc, bind_some (identifier_text name ends)]
  exact spaces

theorem functionKeyword_text {gap : Spaces} (nonempty : gap.val ≠ []) (name : Identifier)
    (rest : List Byte) :
    functionKeyword (ascii "function" ++ (gap.val ++ (name.text ++ rest))) =
      some (gap.val, name.text ++ rest) := by
  have ends : Stops isIdrest (gap.val ++ (name.text ++ rest)) := by
    obtain ⟨gap, spaces⟩ := gap
    cases gap with
    | nil => exact absurd rfl nonempty
    | cons symbol gap => simp [Stops, space_not_idrest (spaces symbol List.mem_cons_self)]
  rw [functionKeyword, bind_some (keyword_append _ _), bind_some (idnot_some ends)]
  exact span_append gap.property (name.stops rest)

/-- A longer name that starts with the keyword is not taken for it. -/
theorem functionKeyword_none {name : Identifier} (other : name.text ≠ ascii "function")
    {rest : List Byte} (stops : Stops isIdrest rest) :
    functionKeyword (name.text ++ rest) = none := by
  by_cases front : ascii "function" <+: name.text ++ rest
  · have letters : ∀ symbol ∈ ascii "function", isIdrest symbol = true := by decide
    obtain ⟨more, split⟩ := prefix_name letters stops front
    rw [functionKeyword, ← split, List.append_assoc, bind_some (keyword_append _ _)]
    apply bind_none
    apply idnot_none
    cases more with
    | nil => exact absurd (by rw [← split, List.append_nil]) other
    | cons symbol more =>
        have member : symbol ∈ name.rest := by
          have tail := congrArg List.tail split
          rw [show name.text.tail = name.rest from rfl] at tail
          rw [← tail]
          exact List.mem_append_right (ascii "unction") List.mem_cons_self
        simp [name.isRest symbol member]
  · exact bind_none (literal_none front)

variable (spelling : Spelling)

/-- What stands behind the keyword. -/
def Spelling.behindKeyword : List Byte :=
  spelling.name.text ++ spelling.gap.val ++ (spelling.params.text ++ (spelling.gapBehind.val ++
    (spelling.returnsText ++ spelling.last.val)))

theorem stops_behind_name (rest : List Byte) :
    Stops isIdrest (spelling.gap.val ++ (spelling.params.text ++ rest)) :=
  stops_gap (fun _ => space_not_idrest) _ (spelling.params.stops (by decide) rest)

/-- The keyword is read if it is there. -/
theorem optional_functionKeyword
    (named : spelling.keyword = none → spelling.name.text ≠ ascii "function") :
    ∃ read, optional functionKeyword (skip (spelling.keywordText ++ spelling.behindKeyword)) =
      some (read, spelling.behindKeyword) := by
  rw [Spelling.behindKeyword, List.append_assoc]
  cases found : spelling.keyword with
  | none =>
      rw [Spelling.keywordText, found, List.nil_append, skip_of_stops (spelling.name.stops _)]
      exact ⟨none, optional_none (functionKeyword_none (named found)
        (stops_behind_name spelling _))⟩
  | some gap =>
      obtain ⟨gap, nonempty⟩ := gap
      rw [Spelling.keywordText, found, List.append_assoc]
      have stays (text : List Byte) : skip (ascii "function" ++ text) = ascii "function" ++ text :=
        skip_of_stops rfl
      rw [stays]
      exact ⟨some gap.val, optional_some (functionKeyword_text nonempty spelling.name _)⟩

/-- Behind the keyword, the grammar reads the name and the parameters. -/
theorem funcSig_named (named : spelling.keyword = none → spelling.name.text ≠ ascii "function") :
    funcSig spelling.text = (tuple >>= behindParams (spelling.name.text ++ spelling.gap.val))
      (spelling.params.text ++ (spelling.gapBehind.val ++
        (spelling.returnsText ++ spelling.last.val))) := by
  obtain ⟨read, keyword⟩ := optional_functionKeyword spelling named
  have text : spelling.text =
      spelling.before.val ++ (spelling.keywordText ++ spelling.behindKeyword) := rfl
  rw [funcSig_eq, opsp_bind, text, skip_spaces, bind_some keyword, Spelling.behindKeyword,
    bind_some (nameAndSpaces_text spelling.name spelling.gap spelling.params _)]

theorem funcSig_allowed (allowed : spelling.Allowed) :
    funcSig spelling.text = some (spelling.value, []) := by
  rw [funcSig_named spelling allowed.named, bind_some (tuple_allowed allowed.params _),
    behindParams_allowed spelling _ _ allowed.returns]
  rfl

/-- Without the keyword, its own name is taken for it. -/
theorem funcSig_keyword (missing : spelling.keyword = none)
    (named : spelling.name.text = ascii "function") : funcSig spelling.text = none := by
  let rest := spelling.gapBehind.val ++ (spelling.returnsText ++ spelling.last.val)
  have text : spelling.text = spelling.before.val ++
      (ascii "function" ++ (spelling.gap.val ++ (spelling.params.text ++ rest))) := by
    simp [Spelling.text, Spelling.keywordText, missing, named, rest]
  have spaces : opsp (spelling.gap.val ++ (spelling.params.text ++ rest)) =
      some (spelling.gap.val, spelling.params.text ++ rest) :=
    span_append spelling.gap.property (spelling.params.stops (by decide) rest)
  have read : functionKeyword
      (ascii "function" ++ (spelling.gap.val ++ (spelling.params.text ++ rest))) =
      some (spelling.gap.val, spelling.params.text ++ rest) := by
    rw [functionKeyword, bind_some (keyword_append _ _),
      bind_some (idnot_some (stops_behind_name spelling rest))]
    exact spaces
  have stays (text : List Byte) : skip (ascii "function" ++ text) = ascii "function" ++ text :=
    skip_of_stops rfl
  have unnamed : nameAndSpaces (spelling.params.text ++ rest) = none := by
    have missed : (identifier >>= fun _ => opsp) (spelling.params.text ++ rest) = none :=
      bind_none (identifier_none (spelling.params.stops (by decide) rest))
    rw [nameAndSpaces, capture, missed]
  rw [funcSig_eq, opsp_bind, text, skip_spaces, stays, bind_some (optional_some read)]
  exact bind_none unnamed

theorem funcSig_refused (refused : ¬ spelling.Allowed) : funcSig spelling.text = none := by
  by_cases named : spelling.keyword = none → spelling.name.text ≠ ascii "function"
  · rw [funcSig_named spelling named]
    by_cases params : spelling.params.Allowed
    · rw [bind_some (tuple_allowed params _)]
      exact behindParams_refused spelling _ _ fun returns => refused ⟨named, params, returns⟩
    · exact bind_none (tuple_refused params _)
  · simp only [not_forall, not_not] at named
    obtain ⟨missing, named⟩ := named
    exact funcSig_keyword spelling missing named

end Signatures

end MachineEmulator.Evmu
