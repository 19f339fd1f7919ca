import Abacus.Proofs.CommandLine.Items

/-
  Reading the items of a command line.

  An argument has one of five forms, by the dashes in front
  of it and by its first equals sign. The arguments of items
  are read as the items, one after the other. The value of a
  detached step limit stays open until the next item settles
  it, or the end; that makes no difference to the options,
  nor to the first item that cannot be taken.

  Main declarations:
    * `Options.Argument.ofString_cases`
    * `Options.Reader.result`
    * `Options.Reader.afterItem`
    * `Options.Reader.foldlM_take_item`
    * `Options.Reader.foldlM_take_items`
-/

------------------------------------------------------------
-- Forms Of Arguments
------------------------------------------------------------

namespace Abacus

namespace Options

/- Without an equals sign there is only a name. -/
theorem takeWhile_of_valueOf_none
    {cs : List Char}
    (hNone : valueOf cs = none) :
    cs.takeWhile (· != '=') = cs := by
  fun_induction valueOf cs with
  | case1 => rfl
  | case2 value => cases hNone
  | case3 c cs hOther ih =>
      rw [List.takeWhile_cons_of_pos
          (by simpa using hOther),
        ih hNone]

/- The name ends at the first equals sign. -/
theorem takeWhile_of_valueOf_some
    {cs : List Char}
    {value : String}
    (hSome : valueOf cs = some value) :
    cs.takeWhile (· != '=') ++ '=' :: value.toList =
      cs := by
  fun_induction valueOf cs with
  | case1 => cases hSome
  | case2 value =>
      cases hSome
      simp
  | case3 c cs hOther ih =>
      rw [List.takeWhile_cons_of_pos
          (by simpa using hOther),
        List.cons_append, ih hSome]

namespace Argument

/- What an argument of each form looks like. -/
theorem ofString_cases
    (text : String) :
    (text = "--" ∧ ofString text = .separator) ∨
      (∃ name,
        text = "--" ++ name ∧
          ofString text = .long name none) ∨
      (∃ name value,
        text = "--" ++ name ++ "=" ++ value ∧
          ofString text = .long name (some value)) ∨
      (∃ c cs,
        text = "-" ++ String.ofList (c :: cs) ∧
          ofString text = .letters (c :: cs)) ∨
      ofString text = .plain text := by
  unfold ofString
  split
  · rename_i hText
    exact .inl ⟨String.toList_inj.mp hText, rfl⟩
  · rename_i cs _ hText
    right
    cases hValue : valueOf cs with
    | none =>
        have hName := takeWhile_of_valueOf_none hValue
        refine .inl ⟨_, ?_, rfl⟩
        exact String.toList_inj.mp (by simp [hText, hName])
    | some value =>
        have hSplit := takeWhile_of_valueOf_some hValue
        refine .inr (.inl ⟨_, value, ?_, rfl⟩)
        exact String.toList_inj.mp (by simp [hText, hSplit])
  · rename_i c cs _ _ hText
    refine .inr (.inr (.inr (.inl ⟨c, cs, ?_, rfl⟩)))
    exact String.toList_inj.mp (by simp [hText])
  · simp

theorem ofString_letters
    {c : Char}
    (hOther : c ≠ '-')
    (cs : List Char) :
    ofString ("-" ++ String.ofList (c :: cs)) =
      .letters (c :: cs) := by
  have hText :
      ("-" ++ String.ofList (c :: cs)).toList =
        '-' :: c :: cs := by
    simp
  unfold ofString
  rw [hText]
  split
  · rename_i hDashes
    cases hDashes
    exact absurd rfl hOther
  · rename_i hDashes
    cases hDashes
    exact absurd rfl hOther
  · rename_i hLetters
    cases hLetters
    rfl
  · rename_i hNone
    exact absurd rfl (hNone c cs)

theorem ofString_joined
    (value : String) :
    ofString ("--step-limit=" ++ value) =
      .long "step-limit" (some value) := by
  unfold ofString
  rw [String.toList_append]
  change
    Argument.long "step-limit"
        (some (String.ofList value.toList)) =
      _
  rw [String.ofList_toList]

/- A text that does not start with a dash is no option. -/
theorem ofString_plain
    {text : String}
    (hHead : text.toList.head? ≠ some '-') :
    ofString text = .plain text := by
  unfold ofString
  split
  · rename_i hText
    exact absurd (congrArg List.head? hText) hHead
  · rename_i hText
    exact absurd (congrArg List.head? hText) hHead
  · rename_i hText
    exact absurd (congrArg List.head? hText) hHead
  · rfl

/- A step limit starts with a sign or a digit. -/
theorem ofString_limit
    (limit : Limit) :
    ofString limit.text = .plain limit.text := by
  apply ofString_plain
  rcases limit.isNumeral with
    ⟨sign, digits, hText, hSign, hSome, hDigits, _⟩
  rw [hText]
  rcases hSign with rfl | rfl
  · cases digits with
    | nil => exact absurd rfl hSome
    | cons c digits =>
        intro hHead
        cases hHead
        cases hDigits '-' List.mem_cons_self
  · simp

end Argument

end Options

end Abacus

------------------------------------------------------------
-- Settled Readers
------------------------------------------------------------

namespace Abacus

namespace Options

namespace Reader

variable {r : Reader}

/- The options of a reader, with what is still open. -/
def result
    (r : Reader) : Except Halt Options := do
  let r ← r.settle
  return r.options

theorem read_eq
    (arguments : List String) :
    read arguments = arguments.foldlM take {} >>= result :=
  rfl

/-
  A reader that is settled holds its options and nothing
  else. A separator makes no difference to them.
-/
theorem settle_eq
    (r : Reader)
    (closed : Bool) :
    settle { r with closed := closed } =
      r.result.map fun options =>
        { options := options, closed := closed } := by
  unfold result settle
  rcases r with ⟨options, pending, _⟩
  cases pending with
  | nothing => rfl
  | expected => rfl
  | given value =>
      dsimp only [setStepLimit]
      split
      · rfl
      · split <;> rfl

theorem settle_of_open
    (hOpen : r.closed = false) :
    r.settle =
      r.result.map fun options =>
        { options := options } := by
  rw [← settle_eq, ← hOpen]

theorem result_closed
    (r : Reader)
    (closed : Bool) :
    result { r with closed := closed } = r.result := by
  rw [result, settle_eq]
  cases r.result <;> rfl

/- Setting a step limit is taking an item. -/
theorem setStepLimit_limit
    (options : Options)
    (limit : Limit) :
    setStepLimit { options := options } limit.text =
      (options.takeItem (.joined limit)).map fun options =>
        { options := options } := by
  have hRead :
      Text.readNumeral limit.text.toList =
        .ok limit.value :=
    Text.readNumeral_ok_iff.mpr
      ⟨limit.isNumeral, limit.isBelow⟩
  rcases options with ⟨trace, disassemble, stepLimit, _⟩
  unfold setStepLimit
  rw [hRead]
  cases stepLimit <;> rfl

end Reader

end Options

end Abacus

------------------------------------------------------------
-- Reading By Form
------------------------------------------------------------

namespace Abacus

namespace Options

namespace Reader

variable {r : Reader}
variable {text : String}

theorem take_separator
    (hOpen : r.closed = false) :
    r.take "--" = .ok { r with closed := true } := by
  rw [take, hOpen]
  rfl

theorem take_of_long
    (hOpen : r.closed = false)
    {name : String}
    {value : Option String}
    (hForm : Argument.ofString text = .long name value) :
    r.take text = r.takeLong name value := by
  rw [take, hOpen, hForm]
  rfl

theorem take_of_letters
    (hOpen : r.closed = false)
    {letters : List Char}
    (hForm : Argument.ofString text = .letters letters) :
    r.take text = letters.foldlM takeLetter r := by
  rw [take, hOpen, hForm]
  rfl

theorem take_of_plain
    (hOpen : r.closed = false)
    (hForm : Argument.ofString text = .plain text) :
    r.take text = r.takePlain text := by
  rw [take, hOpen, hForm]
  rfl

theorem takeLong_flag
    (r : Reader)
    {name : String}
    {flag : Flag}
    (hKey : Key.ofName? name = some (.flag flag)) :
    r.takeLong name none = r.takeFlag flag := by
  simp only [takeLong, hKey]

/- Reading a known option settles what is open. -/
theorem takeFlag_eq
    (hOpen : r.closed = false)
    (flag : Flag) :
    r.takeFlag flag =
      r.result >>= fun options =>
        (raise options flag).map fun options =>
          { options := options } := by
  rw [takeFlag, settle_of_open hOpen]
  cases r.result with
  | error halt => rfl
  | ok options =>
      change
        raise options flag >>= _ =
          (raise options flag).map _
      cases raise options flag <;> rfl

theorem takeLong_stepLimit
    (hOpen : r.closed = false) :
    r.takeLong "step-limit" none =
      r.result.map fun options =>
        { options := options, pending := .expected } := by
  change
    (r.settle >>= fun r =>
        pure { r with pending := .expected }) =
      _
  rw [settle_of_open hOpen]
  cases r.result <;> rfl

theorem takeLong_stepLimit_value
    (hOpen : r.closed = false)
    (value : String) :
    r.takeLong "step-limit" (some value) =
      r.result >>= fun options =>
        setStepLimit { options := options } value := by
  change (r.settle >>= fun r => r.setStepLimit value) = _
  rw [settle_of_open hOpen]
  cases r.result <;> rfl

/- The cap makes no difference to what is added to it. -/
theorem applied_letters_succ
    (options : Options)
    (others : Nat) :
    (Item.letters (others + 1)).applied options =
      (Item.letters others).applied
        (Item.verbose.applied options) := by
  have hCap :
      min 255 (options.verbosity + (others + 1 + 1)) =
        min 255
          (min 255 (options.verbosity + 1) +
            (others + 1)) := by
    omega
  simp only [Item.applied, hCap]

/- Every letter raises the verbosity, up to the cap. -/
theorem foldlM_takeLetter
    (hOpen : r.closed = false)
    (others : Nat) :
    (List.replicate (others + 1) 'v').foldlM takeLetter r =
      r.result >>= fun options =>
        .ok
          { options :=
              (Item.letters others).applied options } := by
  induction others generalizing r with
  | zero =>
      change r.takeFlag .verbose >>= pure = _
      rw [takeFlag_eq hOpen]
      cases r.result <;> rfl
  | succ others ih =>
      rw [List.replicate_succ, List.foldlM_cons]
      change r.takeFlag .verbose >>= _ = _
      rw [takeFlag_eq hOpen]
      cases r.result with
      | error halt => rfl
      | ok options =>
          change
            (List.replicate (others + 1) 'v').foldlM
                takeLetter
                { options :=
                    Item.verbose.applied options } =
              .ok
                { options :=
                    (Item.letters (others + 1)).applied
                      options }
          rw [ih rfl, applied_letters_succ]
          rfl

end Reader

end Options

end Abacus

------------------------------------------------------------
-- Reading Items
------------------------------------------------------------

namespace Abacus

namespace Options

namespace Reader

variable {r : Reader}
variable {options : Options}

/-
  The reader after an item. The value of a detached step
  limit is left open.
-/
def afterItem
    (options : Options) :
    Item → Except Halt Reader
| .detached limit =>
    .ok
      { options := options
        pending := .given limit.text }
| item =>
    (options.takeItem item).map fun options =>
      { options := options }

theorem afterItem_cases
    (options : Options)
    (item : Item) :
    (∃ limit, item = .detached limit) ∨
      afterItem options item =
        (options.takeItem item).map fun options =>
          { options := options } := by
  cases item with
  | detached limit => exact .inl ⟨limit, rfl⟩
  | _ => exact .inr rfl

theorem closed_of_afterItem
    {item : Item}
    (hAfter : afterItem options item = .ok r) :
    r.closed = false := by
  rcases afterItem_cases options item with
    ⟨limit, rfl⟩ | hTaken
  · cases hAfter
    rfl
  · rw [hTaken, map_eq_ok_iff] at hAfter
    rcases hAfter with ⟨_, _, rfl⟩
    rfl

/- In the end it makes no difference what is left open. -/
theorem afterItem_result
    (options : Options)
    (item : Item) :
    afterItem options item >>= result =
      options.takeItem item := by
  rcases afterItem_cases options item with
    ⟨limit, rfl⟩ | hTaken
  · change
      (setStepLimit { options := options } limit.text >>=
          fun r => pure r.options) =
        options.takeItem (.joined limit)
    rw [setStepLimit_limit]
    cases options.takeItem (.joined limit) <;> rfl
  · rw [hTaken]
    cases options.takeItem item <;> rfl

theorem foldlM_take_singleton
    (r : Reader)
    (text : String) :
    [text].foldlM take r = r.take text := by
  rw [List.foldlM_cons]
  exact bind_pure _

theorem foldlM_take_flag
    (hOpen : r.closed = false)
    {text : String}
    (name : String)
    (flag : Flag)
    (hForm : Argument.ofString text = .long name none)
    (hKey : Key.ofName? name = some (.flag flag)) :
    [text].foldlM take r =
      r.result >>= fun options =>
        (raise options flag).map fun options =>
          { options := options } := by
  rw [foldlM_take_singleton, take_of_long hOpen hForm,
    takeLong_flag r hKey, takeFlag_eq hOpen]

/- The arguments of an item are read as the item. -/
theorem foldlM_take_item
    (hOpen : r.closed = false)
    (item : Item) :
    item.arguments.foldlM take r =
      r.result >>= fun options =>
        afterItem options item := by
  cases item with
  | trace =>
      exact foldlM_take_flag hOpen "trace" .trace rfl rfl
  | disassemble =>
      exact foldlM_take_flag hOpen "disassemble"
        .disassemble rfl rfl
  | verbose =>
      exact foldlM_take_flag hOpen "verbose" .verbose
        rfl rfl
  | letters others =>
      have hForm :=
        Argument.ofString_letters (c := 'v') (by decide)
          (List.replicate others 'v')
      rw [Item.arguments, foldlM_take_singleton,
        List.replicate_succ, take_of_letters hOpen hForm,
        ← List.replicate_succ, foldlM_takeLetter hOpen]
      rfl
  | joined limit =>
      have hForm := Argument.ofString_joined limit.text
      rw [Item.arguments, foldlM_take_singleton,
        take_of_long hOpen hForm,
        takeLong_stepLimit_value hOpen]
      simp only [setStepLimit_limit]
      rfl
  | detached limit =>
      have hForm :
          Argument.ofString "--step-limit" =
            .long "step-limit" none :=
        rfl
      have hGiven :
          ∀ options : Options,
            take
                { options := options
                  pending := .expected }
                limit.text =
              .ok
                { options := options
                  pending := .given limit.text } := by
        intro options
        exact take_of_plain rfl
          (Argument.ofString_limit limit)
      rw [Item.arguments, List.foldlM_cons,
        take_of_long hOpen hForm, takeLong_stepLimit hOpen]
      simp only [foldlM_take_singleton]
      cases r.result with
      | error halt => rfl
      | ok options => exact hGiven options

/-
  Items are read one after the other. What an item leaves
  open is settled by the next one, or in the end.
-/
theorem foldlM_take_items
    (hOpen : r.closed = false)
    (items : List Item)
    (ended : Bool) :
    (argumentsOf items ended).foldlM take r >>= result =
      r.result >>= fun options =>
        items.foldlM takeItem options := by
  induction items generalizing r with
  | nil =>
      change _ = r.result >>= pure
      rw [bind_pure]
      cases ended with
      | false => rfl
      | true =>
          change [ "--" ].foldlM take r >>= result = _
          rw [foldlM_take_singleton, take_separator hOpen]
          exact result_closed r true
  | cons item items ih =>
      rw [argumentsOf_cons, List.foldlM_append,
        foldlM_take_item hOpen]
      cases r.result with
      | error halt => rfl
      | ok options =>
          change
            (afterItem options item >>= _) >>= result =
              options.takeItem item >>= _
          rw [← afterItem_result]
          cases hAfter : afterItem options item with
          | error halt => rfl
          | ok next => exact ih (closed_of_afterItem hAfter)

end Reader

end Options

end Abacus
