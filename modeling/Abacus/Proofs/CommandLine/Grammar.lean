import Abacus.Proofs.CommandLine.Arguments

/-
  The grammar of the command line.

  An argument can be read in four ways: as a separator, as
  the name of a step limit, as the value that such a name
  calls for, or as an item. What may follow an argument
  depends on the way it was read, so that arguments which
  are read to the end are the arguments of items, with a
  separator behind them at most. Since the arguments of
  items are read as the items, the command line accepts
  exactly those that set no option twice.

  Main declarations:
    * `Options.Reader.TakeCase`
    * `Options.Reader.takeCase_of_take`
    * `Options.Reader.Awaits`
    * `Options.Reader.awaits_of_read`
    * `Options.ofCommandLine_grammar`
-/

------------------------------------------------------------
-- Arguments That Can Be Read
------------------------------------------------------------

namespace Abacus

namespace Options

/- The long name of an option. -/
def Key.name :
    Key → String
| .flag .trace => "trace"
| .flag .disassemble => "disassemble"
| .flag .verbose => "verbose"
| .flag .help => "help"
| .flag .version => "version"
| .stepLimit => "step-limit"

theorem Key.name_of_ofName?
    {name : String}
    {key : Key}
    (hKey : ofName? name = some key) :
    name = key.name := by
  unfold ofName? at hKey
  split at hKey <;> cases hKey <;> rfl

namespace Reader

variable {r r' : Reader}

/- A value that can be set is a step limit. -/
theorem exists_limit_of_setStepLimit
    {value : String}
    (hSet : r.setStepLimit value = .ok r') :
    ∃ limit : Limit, limit.text = value := by
  unfold setStepLimit at hSet
  split at hSet
  · cases hSet
  · split at hSet
    · cases hSet
    · rename_i n hRead
      rcases Text.readNumeral_ok_iff.mp hRead with
        ⟨hNumeral, hBelow⟩
      exact ⟨⟨value, n, hNumeral, hBelow⟩, rfl⟩

/- A flag that is read settles what was open. -/
theorem takeFlag_ok
    (hOpen : r.closed = false)
    {flag : Flag}
    (hTake : r.takeFlag flag = .ok r') :
    (∃ options, r.result = .ok options) ∧
      flag ≠ .help ∧ flag ≠ .version ∧
      ∃ options, r' = { options := options } := by
  rw [takeFlag_eq hOpen, bind_eq_ok_iff] at hTake
  rcases hTake with ⟨options, hResult, hRaise⟩
  rcases map_eq_ok_iff.mp hRaise with ⟨raised, hFlag, rfl⟩
  refine ⟨⟨options, hResult⟩, ?_, ?_, raised, rfl⟩
  · rintro rfl
    cases hFlag
  · rintro rfl
    cases hFlag

/- Only one letter can be read without a halt. -/
theorem takeLetter_ok
    (hOpen : r.closed = false)
    {c : Char}
    (hTake : r.takeLetter c = .ok r') :
    (∃ options, r.result = .ok options) ∧
      c = 'v' ∧ ∃ options, r' = { options := options } := by
  unfold takeLetter at hTake
  split at hTake
  · rename_i flag hFlag
    rcases takeFlag_ok hOpen hTake with
      ⟨hResult, hHelp, hVersion, hReader⟩
    refine ⟨hResult, ?_, hReader⟩
    unfold Flag.ofLetter? at hFlag
    split at hFlag
    · rfl
    · cases hFlag
      exact absurd rfl hHelp
    · cases hFlag
      exact absurd rfl hVersion
    · cases hFlag
  · cases hTake

theorem foldlM_takeLetter_ok
    {letters : List Char}
    {options : Options}
    (hTake :
      letters.foldlM takeLetter { options := options } =
        .ok r') :
    (∀ c ∈ letters, c = 'v') ∧
      ∃ options, r' = { options := options } := by
  induction letters generalizing options with
  | nil =>
      cases hTake
      exact ⟨by simp, options, rfl⟩
  | cons c cs ih =>
      rw [List.foldlM_cons, bind_eq_ok_iff] at hTake
      rcases hTake with ⟨next, hLetter, hLetters⟩
      rcases takeLetter_ok rfl hLetter with
        ⟨_, hFirst, _, rfl⟩
      rcases ih hLetters with ⟨hRest, hReader⟩
      exact ⟨List.forall_mem_cons.mpr ⟨hFirst, hRest⟩,
        hReader⟩

/-
  The ways in which an argument can be read: as a separator,
  as the name of a step limit whose value is to follow, as
  an item, or as that value.
-/
inductive TakeCase
    (r : Reader)
    (text : String) : Reader → Prop
| ended
    (hText : text = "--") :
    TakeCase r text { r with closed := true }
| named
    {options : Options}
    (hResult : r.result = .ok options)
    (hText : text = "--step-limit") :
    TakeCase r text
      { options := options
        pending := .expected }
| taken
    {before options : Options}
    (item : Item)
    (hResult : r.result = .ok before)
    (hItem : item.arguments = [text]) :
    TakeCase r text { options := options }
| given
    (hExpected : r.pending = .expected) :
    TakeCase r text { r with pending := .given text }

/- A long option that is read has a name that is known. -/
theorem exists_key_of_takeLong
    {name : String}
    {value : Option String}
    (hTake : r.takeLong name value = .ok r') :
    ∃ key,
      Key.ofName? name = some key ∧ name = key.name := by
  cases hKey : Key.ofName? name with
  | none =>
      simp only [takeLong, hKey] at hTake
      cases hTake
  | some key => exact ⟨key, rfl, Key.name_of_ofName? hKey⟩

/- A long option without a value. -/
theorem takeCase_of_name
    (hOpen : r.closed = false)
    {name : String}
    (hTake : r.takeLong name none = .ok r') :
    r.TakeCase ("--" ++ name) r' := by
  rcases exists_key_of_takeLong hTake with ⟨key, hKey, rfl⟩
  cases key with
  | flag flag =>
      rw [takeLong_flag r hKey] at hTake
      rcases takeFlag_ok hOpen hTake with
        ⟨⟨before, hResult⟩, hHelp, hVersion, options, rfl⟩
      cases flag with
      | trace => exact .taken .trace hResult rfl
      | disassemble =>
          exact .taken .disassemble hResult rfl
      | verbose => exact .taken .verbose hResult rfl
      | help => exact absurd rfl hHelp
      | version => exact absurd rfl hVersion
  | stepLimit =>
      rw [Key.name, takeLong_stepLimit hOpen,
        map_eq_ok_iff] at hTake
      rcases hTake with ⟨options, hResult, rfl⟩
      exact .named hResult rfl

/- A long option with a value. -/
theorem takeCase_of_value
    (hOpen : r.closed = false)
    {name value : String}
    (hTake : r.takeLong name (some value) = .ok r') :
    r.TakeCase ("--" ++ name ++ "=" ++ value) r' := by
  rcases exists_key_of_takeLong hTake with ⟨key, hKey, rfl⟩
  cases key with
  | flag flag =>
      simp only [takeLong, hKey] at hTake
      cases hTake
  | stepLimit =>
      rw [Key.name, takeLong_stepLimit_value hOpen,
        bind_eq_ok_iff] at hTake
      rcases hTake with ⟨before, hResult, hSet⟩
      rcases exists_limit_of_setStepLimit hSet with
        ⟨limit, rfl⟩
      rw [setStepLimit_limit, map_eq_ok_iff] at hSet
      rcases hSet with ⟨options, _, rfl⟩
      exact .taken (.joined limit) hResult rfl

/- Letters behind a dash. -/
theorem takeCase_of_letters
    (hOpen : r.closed = false)
    {c : Char}
    {cs : List Char}
    (hTake : (c :: cs).foldlM takeLetter r = .ok r') :
    r.TakeCase ("-" ++ String.ofList (c :: cs)) r' := by
  rw [List.foldlM_cons, bind_eq_ok_iff] at hTake
  rcases hTake with ⟨next, hLetter, hLetters⟩
  rcases takeLetter_ok hOpen hLetter with
    ⟨⟨before, hResult⟩, rfl, raised, rfl⟩
  rcases foldlM_takeLetter_ok hLetters with
    ⟨hAll, options, rfl⟩
  have hSame : cs = List.replicate cs.length 'v' :=
    List.eq_replicate_of_mem hAll
  refine .taken (.letters cs.length) hResult ?_
  rw [Item.arguments, List.replicate_succ, ← hSame]

/- An argument without the dashes of an option. -/
theorem takeCase_of_plain
    {text : String}
    (hTake : r.takePlain text = .ok r') :
    r.TakeCase text r' := by
  unfold takePlain at hTake
  split at hTake
  · rename_i hExpected
    cases hTake
    exact .given hExpected
  · cases hTake

/- There is no other way to read an argument. -/
theorem takeCase_of_take
    (hOpen : r.closed = false)
    {text : String}
    (hTake : r.take text = .ok r') :
    r.TakeCase text r' := by
  rcases Argument.ofString_cases text with
    ⟨hText, _⟩ | ⟨name, hText, hForm⟩ |
      ⟨name, value, hText, hForm⟩ |
      ⟨c, cs, hText, hForm⟩ | hForm
  · rw [hText, take_separator hOpen] at hTake
    cases hTake
    exact .ended hText
  · rw [take_of_long hOpen hForm] at hTake
    rw [hText]
    exact takeCase_of_name hOpen hTake
  · rw [take_of_long hOpen hForm] at hTake
    rw [hText]
    exact takeCase_of_value hOpen hTake
  · rw [take_of_letters hOpen hForm] at hTake
    rw [hText]
    exact takeCase_of_letters hOpen hTake
  · rw [take_of_plain hOpen hForm] at hTake
    exact takeCase_of_plain hTake

end Reader

end Options

end Abacus

------------------------------------------------------------
-- What May Follow
------------------------------------------------------------

namespace Abacus

namespace Options

namespace Reader

variable {r r' : Reader}
variable {text : String}
variable {arguments : List String}

/-
  What may still follow a reader: items, if what is open can
  be settled, or else the value that it expects and then
  items.
-/
inductive Awaits
    (r : Reader) : List String → Prop
| items
    {options : Options}
    (hResult : r.result = .ok options)
    (items : List Item)
    (ended : Bool) :
    Awaits r (argumentsOf items ended)
| value
    (hExpected : r.pending = .expected)
    (limit : Limit)
    (items : List Item)
    (ended : Bool) :
    Awaits r (limit.text :: argumentsOf items ended)

/-
  What may follow an argument may follow the reader with the
  argument in front. The cases are the ways in which it can
  be read.
-/
theorem TakeCase.awaits
    (hCase : r.TakeCase text r')
    (hOpen : r'.closed = false)
    (hAwaits : r'.Awaits arguments) :
    r.Awaits (text :: arguments) := by
  cases hCase with
  | ended hText => cases hOpen
  | named hResult hText =>
      cases hAwaits with
      | items hSettled => cases hSettled
      | value _ limit items ended =>
          have hItems :=
            Awaits.items hResult (.detached limit :: items)
              ended
          rw [argumentsOf_cons] at hItems
          rw [hText]
          exact hItems
  | taken item hResult hItem =>
      cases hAwaits with
      | items _ items ended =>
          have hItems :=
            Awaits.items hResult (item :: items) ended
          rw [argumentsOf_cons, hItem] at hItems
          exact hItems
      | value hExpected => cases hExpected
  | given hExpected =>
      cases hAwaits with
      | items hResult items ended =>
          -- Settling what was given makes it a limit.
          rcases bind_eq_ok_iff.mp hResult with
            ⟨settled, hSet, _⟩
          rcases exists_limit_of_setStepLimit hSet with
            ⟨limit, rfl⟩
          exact .value hExpected limit items ended
      | value hGiven => cases hGiven

/- Only a separator closes a reader. -/
theorem TakeCase.awaits_nil
    {options : Options}
    (hCase : r.TakeCase text r')
    (hOpen : r.closed = false)
    (hClosed : r'.closed = true)
    (hResult : r'.result = .ok options) :
    r.Awaits [text] := by
  cases hCase with
  | ended hText =>
      rw [result_closed] at hResult
      rw [hText]
      exact .items hResult [] true
  | named => cases hClosed
  | taken => cases hClosed
  | given =>
      rw [hOpen] at hClosed
      cases hClosed

/- Behind a separator nothing can be read. -/
theorem eq_nil_of_closed
    (hClosed : r.closed = true)
    (hRead : arguments.foldlM take r = .ok r') :
    arguments = [] ∧ r' = r := by
  cases arguments with
  | nil =>
      cases hRead
      exact ⟨rfl, rfl⟩
  | cons text arguments =>
      rw [List.foldlM_cons, take, hClosed] at hRead
      cases hRead

/-
  Arguments that are read to the end are those that may
  follow the reader.
-/
theorem awaits_of_read
    (hOpen : r.closed = false)
    {options : Options}
    (hRead :
      arguments.foldlM take r >>= result = .ok options) :
    r.Awaits arguments := by
  induction arguments generalizing r with
  | nil => exact .items hRead [] false
  | cons text arguments ih =>
      rw [List.foldlM_cons, bind_assoc,
        bind_eq_ok_iff] at hRead
      rcases hRead with ⟨next, hTake, hRest⟩
      have hCase := takeCase_of_take hOpen hTake
      cases hClosed : next.closed with
      | false =>
          exact hCase.awaits hClosed (ih hClosed hRest)
      | true =>
          rcases bind_eq_ok_iff.mp hRest with
            ⟨last, hLast, hResult⟩
          rcases eq_nil_of_closed hClosed hLast with
            ⟨rfl, rfl⟩
          exact hCase.awaits_nil hOpen hClosed hResult

end Reader

end Options

end Abacus

------------------------------------------------------------
-- Command Lines
------------------------------------------------------------

namespace Abacus

namespace Options

variable {arguments : List String}
variable {items : List Item}
variable {options : Options}

/- What can be read is written as items. -/
theorem exists_items_of_read
    (hRead : read arguments = .ok options) :
    ∃ items ended, arguments = argumentsOf items ended := by
  rw [Reader.read_eq] at hRead
  cases Reader.awaits_of_read rfl hRead with
  | items _ items ended => exact ⟨items, ended, rfl⟩
  | value hExpected => cases hExpected

/- Items that are read set no option twice. -/
theorem askedBy_of_read
    {ended : Bool}
    (hRead :
      read (argumentsOf items ended) = .ok options) :
    UsedOnce items ∧ AskedBy items options := by
  rw [Reader.read_eq, Reader.foldlM_take_items rfl] at hRead
  exact askedBy_of_takeItems usedOnce_nil askedBy_nil hRead

/- Items that set no option twice can be read. -/
theorem exists_read_of_usedOnce
    (hOnce : UsedOnce items)
    (ended : Bool) :
    ∃ options,
      read (argumentsOf items ended) = .ok options := by
  rw [Reader.read_eq, Reader.foldlM_take_items rfl]
  exact exists_takeItems askedBy_nil hOnce

/-
  The command line is read exactly if it is written as items
  of which no two set the same option, whatever the program
  is called. The options are those that the items ask for,
  so that their order does not matter, nor does a separator
  at the end.
-/
theorem ofCommandLine_grammar
    (words : List String) :
    ((∃ options, ofCommandLine words = .ok options) ↔
        ∃ items ended,
          words.drop 1 = argumentsOf items ended ∧
            UsedOnce items) ∧
      (∀ items ended options,
        words.drop 1 = argumentsOf items ended →
          ofCommandLine words = .ok options →
          AskedBy items options) ∧
      ∀ items ended words' items' ended' options,
        words.drop 1 = argumentsOf items ended →
          words'.drop 1 = argumentsOf items' ended' →
          items.Perm items' →
          ofCommandLine words = .ok options →
          ofCommandLine words' = .ok options := by
  unfold ofCommandLine
  refine ⟨⟨?_, ?_⟩, ?_, ?_⟩
  · rintro ⟨options, hRead⟩
    rcases exists_items_of_read hRead with
      ⟨items, ended, hWords⟩
    rw [hWords] at hRead
    exact ⟨items, ended, hWords, (askedBy_of_read hRead).1⟩
  · rintro ⟨items, ended, hWords, hOnce⟩
    rw [hWords]
    exact exists_read_of_usedOnce hOnce ended
  · intro items ended options hWords hRead
    rw [hWords] at hRead
    exact (askedBy_of_read hRead).2
  · intro items ended words' items' ended' options hWords
      hWords' hPerm hRead
    rw [hWords] at hRead
    rcases askedBy_of_read hRead with ⟨hOnce, hAsked⟩
    rcases exists_read_of_usedOnce (hOnce.perm hPerm)
        ended' with
      ⟨options', hRead'⟩
    have hAsked' := (askedBy_of_read hRead').2
    rw [hWords', hRead',
      (hAsked.perm hPerm).unique hAsked']

/-
  Three hundred letters, a limit with a sign and with zeros,
  and the same items from the last to the first.
-/
theorem ofCommandLine_grammar_reversed :
    ∃ options,
      ofCommandLine
            [ "yon",
              "-" ++ String.ofList (List.replicate 300 'v'),
              "--step-limit", "+007", "--trace", "--" ] =
          .ok options ∧
        ofCommandLine
            [ "yon", "--trace", "--step-limit", "+007",
              "-" ++ String.ofList
                (List.replicate 300 'v') ] =
          .ok options ∧
        options.trace = true ∧
        options.stepLimit = some 7 ∧
        options.verbosity = 255 := by
  have hNumeral : Text.IsNumeral "+007".toList 7 :=
    ⟨['+'], "007".toList, by decide, .inr rfl, by decide,
      List.all_eq_true.mp (by decide), by decide⟩
  let seven : Limit := ⟨"+007", 7, hNumeral, by decide⟩
  let items : List Item :=
    [.letters 299, .detached seven, .trace]
  have hOnce : UsedOnce items := by
    change [Key.stepLimit, .flag .trace].Nodup
    decide
  rcases ofCommandLine_grammar
      [ "yon",
        "-" ++ String.ofList (List.replicate 300 'v'),
        "--step-limit", "+007", "--trace", "--" ] with
    ⟨hReads, hAsks, hOrder⟩
  rcases hReads.mpr ⟨items, true, rfl, hOnce⟩ with
    ⟨options, hRead⟩
  have hAsked := hAsks items true options rfl hRead
  refine ⟨options, hRead, ?_, ?_, ?_, ?_⟩
  · exact hOrder items true _ items.reverse false options
      rfl rfl items.reverse_perm.symm hRead
  · exact hAsked.trace.mpr (by simp [items])
  · exact (hAsked.stepLimit 7).mpr
      ⟨.detached seven, by simp [items], rfl⟩
  · exact hAsked.verbosity

end Options

end Abacus
