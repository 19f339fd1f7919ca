import Abacus.CommandLine.Options
import Abacus.Proofs.Text.Reading

/-
  The items of a command line.

  A command line is a row of items: flags, letters, and step
  limits in one of two spellings. Every item sets an option
  or raises the verbosity; what an item sets may be set only
  once. The options that items ask for say which items there
  are, and how much they raise the verbosity, so that their
  order does not matter.

  Main declarations:
    * `Options.Item` and `Options.argumentsOf`
    * `Options.UsedOnce`
    * `Options.takeItem`
    * `Options.AskedBy` and `Options.AskedBy.applied`
    * `Options.askedBy_of_takeItems`
    * `Options.exists_takeItems`
-/

------------------------------------------------------------
-- Items
------------------------------------------------------------

namespace Abacus

namespace Options

/-
  A step limit as it is written: digits behind one plus sign
  at most, and a value below `2 ^ 64`.
-/
structure Limit where
  text : String
  value : Nat
  isNumeral : Text.IsNumeral text.toList value
  isBelow : value < Nat.pow 2 64
deriving DecidableEq

/-
  An item of a command line. There is one letter more behind
  a dash than there are others.
-/
inductive Item where
| trace
| disassemble
| verbose
| letters (others : Nat)
| joined (limit : Limit)
| detached (limit : Limit)
deriving DecidableEq

namespace Item

/- The arguments that an item is written as. -/
def arguments :
    Item → List String
| .trace => ["--trace"]
| .disassemble => ["--disassemble"]
| .verbose => ["--verbose"]
| .letters others =>
    ["-" ++ String.ofList (List.replicate (others + 1) 'v')]
| .joined limit => ["--step-limit=" ++ limit.text]
| .detached limit => ["--step-limit", limit.text]

/- The option that an item sets. -/
def key? :
    Item → Option Key
| .trace => some (.flag .trace)
| .disassemble => some (.flag .disassemble)
| .verbose => none
| .letters _ => none
| .joined _ => some .stepLimit
| .detached _ => some .stepLimit

/- The step limit that an item sets. -/
def limit? :
    Item → Option Nat
| .joined limit => some limit.value
| .detached limit => some limit.value
| _ => none

/- By how much an item raises the verbosity. -/
def raises :
    Item → Nat
| .verbose => 1
| .letters others => others + 1
| _ => 0

end Item

/-
  The arguments of a command line: those of its items, and a
  separator if it is ended by one.
-/
def argumentsOf
    (items : List Item)
    (ended : Bool) : List String :=
  items.flatMap Item.arguments ++
    if ended then ["--"] else []

theorem argumentsOf_cons
    (item : Item)
    (items : List Item)
    (ended : Bool) :
    argumentsOf (item :: items) ended =
      item.arguments ++ argumentsOf items ended := by
  simp [argumentsOf]

/- No option is set twice. -/
def UsedOnce
    (items : List Item) : Prop :=
  (items.filterMap Item.key?).Nodup

instance
    (items : List Item) :
    Decidable (UsedOnce items) := by
  unfold UsedOnce
  infer_instance

theorem usedOnce_nil :
    UsedOnce [] :=
  List.nodup_nil

/- By how much items raise the verbosity. -/
def raisesOf :
    List Item → Nat
| [] => 0
| item :: items => item.raises + raisesOf items

theorem raisesOf_append
    (items others : List Item) :
    raisesOf (items ++ others) =
      raisesOf items + raisesOf others := by
  induction items with
  | nil => simp [raisesOf]
  | cons item items ih => simp [raisesOf, ih, Nat.add_assoc]

theorem raisesOf_perm
    {items others : List Item}
    (hPerm : items.Perm others) :
    raisesOf items = raisesOf others := by
  induction hPerm with
  | nil => rfl
  | cons item _ ih => simp [raisesOf, ih]
  | swap item item' items =>
      simp only [raisesOf]
      omega
  | trans _ _ ih ih' => exact ih.trans ih'

end Options

end Abacus

------------------------------------------------------------
-- Options That Items Ask For
------------------------------------------------------------

namespace Abacus

namespace Options

/- The options that items ask for. -/
structure AskedBy
    (items : List Item)
    (options : Options) : Prop where
  trace : options.trace = true ↔ .trace ∈ items
  disassemble :
    options.disassemble = true ↔ .disassemble ∈ items
  stepLimit :
    ∀ n,
      options.stepLimit = some n ↔
        ∃ item ∈ items, item.limit? = some n
  verbosity : options.verbosity = min 255 (raisesOf items)

/- No items ask for nothing. -/
theorem askedBy_nil :
    AskedBy [] {} := by
  constructor <;> simp [raisesOf]

/- Items ask for the same options in any order. -/
theorem AskedBy.perm
    {items others : List Item}
    {options : Options}
    (hAsked : AskedBy items options)
    (hPerm : items.Perm others) :
    AskedBy others options where
  trace := by rw [hAsked.trace, hPerm.mem_iff]
  disassemble := by rw [hAsked.disassemble, hPerm.mem_iff]
  stepLimit := by
    intro n
    rw [hAsked.stepLimit]
    simp only [hPerm.mem_iff]
  verbosity := by
    rw [hAsked.verbosity, raisesOf_perm hPerm]

/- They ask for nothing else. -/
theorem AskedBy.unique
    {items : List Item}
    {options others : Options}
    (hAsked : AskedBy items options)
    (hOther : AskedBy items others) :
    options = others := by
  have hTrace : options.trace = others.trace := by
    rw [Bool.eq_iff_iff, hAsked.trace, hOther.trace]
  have hDisassemble :
      options.disassemble = others.disassemble := by
    rw [Bool.eq_iff_iff, hAsked.disassemble,
      hOther.disassemble]
  have hLimit : options.stepLimit = others.stepLimit := by
    apply Option.ext
    intro n
    rw [hAsked.stepLimit, hOther.stepLimit]
  have hVerbosity :
      options.verbosity = others.verbosity := by
    rw [hAsked.verbosity, hOther.verbosity]
  cases options
  cases others
  simp_all

/- Whether an option is set. -/
def has
    (options : Options) :
    Key → Bool
| .flag .trace => options.trace
| .flag .disassemble => options.disassemble
| .stepLimit => options.stepLimit.isSome
| .flag _ => false

/- The options with an item more. -/
def Item.applied
    (options : Options) :
    Item → Options
| .trace => { options with trace := true }
| .disassemble => { options with disassemble := true }
| .verbose =>
    { options with
      verbosity := min 255 (options.verbosity + 1) }
| .letters others =>
    { options with
      verbosity :=
        min 255 (options.verbosity + (others + 1)) }
| .joined limit =>
    { options with stepLimit := some limit.value }
| .detached limit =>
    { options with stepLimit := some limit.value }

theorem Item.trace_applied
    (options : Options)
    (item : Item) :
    (item.applied options).trace = true ↔
      options.trace = true ∨ item = .trace := by
  cases item <;> simp [applied]

theorem Item.disassemble_applied
    (options : Options)
    (item : Item) :
    (item.applied options).disassemble = true ↔
      options.disassemble = true ∨ item = .disassemble := by
  cases item <;> simp [applied]

theorem Item.stepLimit_applied
    (options : Options)
    (item : Item) :
    (item.applied options).stepLimit =
      item.limit?.or options.stepLimit := by
  cases item <;> rfl

theorem Item.verbosity_applied
    {options : Options}
    (hCapped : options.verbosity ≤ 255)
    (item : Item) :
    (item.applied options).verbosity =
      min 255 (options.verbosity + item.raises) := by
  cases item <;> simp [applied, raises] <;> omega

/- Take an item, unless it sets what is set already. -/
def takeItem
    (options : Options)
    (item : Item) : Except Halt Options :=
  match item.key? with
  | none => .ok (item.applied options)
  | some key =>
      if options.has key then
        .error (.misuse (.repeated key))
      else
        .ok (item.applied options)

/- An item is new if it sets what is not set yet. -/
def Item.IsNew
    (options : Options)
    (item : Item) : Prop :=
  ∀ key, item.key? = some key → options.has key = false

/- Exactly an item that is new can be taken. -/
theorem takeItem_ok_iff
    {options others : Options}
    {item : Item} :
    options.takeItem item = .ok others ↔
      item.IsNew options ∧
        item.applied options = others := by
  unfold takeItem Item.IsNew
  cases hKey : item.key? with
  | none => simp
  | some key =>
      cases hHas : options.has key <;> simp [hHas]

theorem Item.key?_eq_trace_iff
    {item : Item} :
    item.key? = some (.flag .trace) ↔ item = .trace := by
  cases item <;> simp [key?]

theorem Item.key?_eq_disassemble_iff
    {item : Item} :
    item.key? = some (.flag .disassemble) ↔
      item = .disassemble := by
  cases item <;> simp [key?]

theorem Item.key?_eq_stepLimit_iff
    {item : Item} :
    item.key? = some .stepLimit ↔
      ∃ n, item.limit? = some n := by
  cases item <;> simp [key?, limit?]

/- An option is set if an item sets it. -/
theorem AskedBy.has_iff
    {items : List Item}
    {options : Options}
    (hAsked : AskedBy items options)
    (key : Key) :
    options.has key = true ↔
      key ∈ items.filterMap Item.key? := by
  rw [List.mem_filterMap]
  cases key with
  | stepLimit =>
      simp only [has, Option.isSome_iff_exists,
        hAsked.stepLimit, Item.key?_eq_stepLimit_iff]
      constructor
      · rintro ⟨n, item, hMem, hLimit⟩
        exact ⟨item, hMem, n, hLimit⟩
      · rintro ⟨item, hMem, n, hLimit⟩
        exact ⟨n, item, hMem, hLimit⟩
  | flag flag =>
      cases flag with
      | trace =>
          simp [has, hAsked.trace, Item.key?_eq_trace_iff]
      | disassemble =>
          simp [has, hAsked.disassemble,
            Item.key?_eq_disassemble_iff]
      | _ =>
          constructor
          · intro hSet
            cases hSet
          · rintro ⟨item, _, hKey⟩
            cases item <;> cases hKey

/- An item more asks for one thing more. -/
theorem AskedBy.applied
    {items : List Item}
    {options : Options}
    (hAsked : AskedBy items options)
    {item : Item}
    (hNew : item.IsNew options) :
    AskedBy (items ++ [item]) (item.applied options) where
  trace := by
    rw [item.trace_applied, hAsked.trace]
    simp [eq_comm]
  disassemble := by
    rw [item.disassemble_applied, hAsked.disassemble]
    simp [eq_comm]
  stepLimit := by
    intro n
    rw [item.stepLimit_applied]
    cases hLimit : item.limit? with
    | none =>
        simp [hAsked.stepLimit, hLimit, or_and_right,
          exists_or]
    | some limit =>
        -- There was no limit before, so this is the one.
        have hKey : item.key? = some .stepLimit :=
          Item.key?_eq_stepLimit_iff.mpr ⟨limit, hLimit⟩
        have hNone : options.stepLimit = none := by
          simpa [has] using hNew _ hKey
        have hFree := hAsked.stepLimit n
        rw [hNone] at hFree
        simp [or_and_right, exists_or, ← hFree, hLimit]
  verbosity := by
    have hVerbosity := hAsked.verbosity
    rw [item.verbosity_applied (by omega), raisesOf_append,
      raisesOf, raisesOf]
    omega

end Options

end Abacus

------------------------------------------------------------
-- Taking Items
------------------------------------------------------------

namespace Abacus

namespace Options

variable {before items : List Item}
variable {options others : Options}

/- What succeeds in two parts succeeds in each. -/
theorem bind_eq_ok_iff
    {ε α β : Type}
    {x : Except ε α}
    {f : α → Except ε β}
    {b : β} :
    x >>= f = .ok b ↔ ∃ a, x = .ok a ∧ f a = .ok b := by
  cases x with
  | error e =>
      constructor
      · intro hBind
        cases hBind
      · rintro ⟨a, hFirst, _⟩
        cases hFirst
  | ok a =>
      constructor
      · intro hBind
        exact ⟨a, rfl, hBind⟩
      · rintro ⟨a', hFirst, hSecond⟩
        cases hFirst
        exact hSecond

theorem map_eq_ok_iff
    {ε α β : Type}
    {x : Except ε α}
    {f : α → β}
    {b : β} :
    x.map f = .ok b ↔ ∃ a, x = .ok a ∧ f a = b := by
  cases x with
  | error e =>
      constructor
      · intro hMap
        cases hMap
      · rintro ⟨a, hFirst, _⟩
        cases hFirst
  | ok a =>
      constructor
      · intro hMap
        exact ⟨a, rfl, Except.ok.inj hMap⟩
      · rintro ⟨a', hFirst, hSecond⟩
        cases hFirst
        exact congrArg Except.ok hSecond

/- An item is new if no option is set twice by it. -/
theorem AskedBy.isNew_iff
    (hOnce : UsedOnce before)
    (hAsked : AskedBy before options)
    {item : Item} :
    item.IsNew options ↔ UsedOnce (before ++ [item]) := by
  have hSet :
      ∀ key,
        options.has key = false ↔
          key ∉ before.filterMap Item.key? := by
    intro key
    rw [← hAsked.has_iff, Bool.not_eq_true]
  unfold UsedOnce at hOnce ⊢
  unfold Item.IsNew
  rw [List.filterMap_append, List.nodup_append]
  cases hKey : item.key? with
  | none => simp [hKey, hOnce]
  | some key =>
      rw [List.filterMap_cons_some hKey, List.filterMap_nil]
      constructor
      · intro hNew
        have hFree := (hSet key).mp (hNew key rfl)
        refine ⟨hOnce, by simp, ?_⟩
        intro set hMem other hOther hSame
        rw [hSame, List.mem_singleton.mp hOther] at hMem
        exact hFree hMem
      · rintro ⟨_, _, hApart⟩ other hOther
        cases hOther
        rw [hSet]
        intro hMem
        exact hApart key hMem key List.mem_cons_self rfl

/- Items before others are used once if all are. -/
theorem UsedOnce.of_append
    (hOnce : UsedOnce (before ++ items)) :
    UsedOnce before := by
  unfold UsedOnce at hOnce
  rw [List.filterMap_append, List.nodup_append] at hOnce
  exact hOnce.1

theorem UsedOnce.perm
    {reordered : List Item}
    (hOnce : UsedOnce items)
    (hPerm : items.Perm reordered) :
    UsedOnce reordered :=
  List.Nodup.perm hOnce (hPerm.filterMap Item.key?)

/-
  Items that are taken one after the other set no option
  twice, and the result is what they ask for. Both hold of
  the items before, and every item adds itself to them.
-/
theorem askedBy_of_takeItems
    (hOnce : UsedOnce before)
    (hAsked : AskedBy before options)
    (hTake : items.foldlM takeItem options = .ok others) :
    UsedOnce (before ++ items) ∧
      AskedBy (before ++ items) others := by
  induction items generalizing before options with
  | nil =>
      cases hTake
      rw [List.append_nil]
      exact ⟨hOnce, hAsked⟩
  | cons item items ih =>
      rw [List.foldlM_cons, bind_eq_ok_iff] at hTake
      rcases hTake with ⟨next, hItem, hItems⟩
      rcases takeItem_ok_iff.mp hItem with ⟨hNew, rfl⟩
      have hMore := (hAsked.isNew_iff hOnce).mp hNew
      rw [List.append_cons]
      exact ih hMore (hAsked.applied hNew) hItems

/- Items that set no option twice can be taken. -/
theorem exists_takeItems
    (hAsked : AskedBy before options)
    (hAll : UsedOnce (before ++ items)) :
    ∃ others,
      items.foldlM takeItem options = .ok others := by
  induction items generalizing before options with
  | nil => exact ⟨options, rfl⟩
  | cons item items ih =>
      rw [List.append_cons] at hAll
      have hMore := hAll.of_append
      have hNew :=
        (hAsked.isNew_iff hMore.of_append).mpr hMore
      rcases ih (hAsked.applied hNew) hAll with
        ⟨others, hItems⟩
      refine ⟨others, ?_⟩
      rw [List.foldlM_cons, bind_eq_ok_iff]
      exact ⟨item.applied options,
        takeItem_ok_iff.mpr ⟨hNew, rfl⟩, hItems⟩

end Options

end Abacus
