import LinkedsemiZephyr.Lib.CString
import LinkedsemiZephyr.Lib.SortedFinset
import LinkedsemiZephyr.Lib.Transducer

/-! The names behind the shell's `dynamic` command: a sorted array of rows and a counter
(`dynamic_cmd.c`), against the set of names it stands for. -/
namespace LinkedsemiZephyr.Shell

open CString

def maxCmdCnt : Nat := 20

def maxCmdLen : Nat := 33

/-- What a `char` array holds up to its NUL. -/
abbrev Str : Type := { s : List UInt8 // 0 ∉ s }

def emptyStr : Str := ⟨[], List.not_mem_nil⟩

def stringCmp (a b : Str) : Int := order a.1 b.1

/-- It is `strcmp` on the arrays, whatever they hold behind the NUL. -/
theorem strcmp_rows (a b : Str) (x y : List UInt8) :
    strcmp (a.1 ++ 0 :: x) (b.1 ++ 0 :: y) = some (stringCmp a b) :=
  strcmp_terminated a.2 b.2 x y

/-- Whether a row holds a name, as every loop over the rows asks. -/
def holds (name row : Str) : Bool := stringCmp row name == 0

/-- `a` may stand before `b` in a sorted table. -/
abbrev Before (a b : Str) : Prop := stringCmp a b ≤ 0

theorem before_iff {a b : Str} : Before a b ↔ a.1.map UInt8.toNat ≤ b.1.map UInt8.toNat :=
  order_le_zero a.2

theorem stringCmp_eq_zero {a b : Str} : stringCmp a b = 0 ↔ a = b :=
  (order_eq_zero a.2 b.2).trans Subtype.ext_iff.symm

instance : IsTrans Str Before where
  trans _ _ _ hab hbc := before_iff.mpr (le_trans (before_iff.mp hab) (before_iff.mp hbc))

instance : Std.Antisymm Before where
  antisymm _ _ hab hba := Subtype.ext (List.map_injective_iff.mpr (fun _ _ => UInt8.toNat_inj.mp)
    (le_antisymm (before_iff.mp hab) (before_iff.mp hba)))

instance : Std.Total Before where
  total _ _ := (le_total _ _).imp before_iff.mpr before_iff.mpr

/-- An argument of a command; a line of the shell is shorter than a `uint16_t` counts. -/
structure Arg where
  text : Str
  short : text.1.length < 0x10000

inductive Print where
  | print | warn | error
deriving DecidableEq

inductive Outcome where
  /-- A handler's return value, and what it printed. -/
  | returned (code : Int) (lines : List (Print × List UInt8))
  /-- The fields of an entry of `dynamic_cmd_get` that are not always NULL. -/
  | entry (entrySyntax : Option Str) (help : Option (List UInt8))
deriving DecidableEq

def enoexec : Int := 8

def refused (text : List UInt8) : Outcome := .returned (-enoexec) [(.error, text)]

def done (text : List UInt8) : Outcome := .returned 0 [(.print, text)]

def isalnum (c : UInt8) : Bool :=
  isdigit c || 0x41 ≤ c && c ≤ 0x5a || 0x61 ≤ c && c ≤ 0x7a

/-- Why an argument cannot be a name at all. -/
def badName (arg : Arg) : Option Outcome :=
  if maxCmdLen ≤ arg.text.1.length then some (refused (literal "too long command"))
  else if ¬ arg.text.1.all isalnum then
    some (refused (literal "bad command name - please use only alphanumerical characters"))
  else none

def duplicated : Outcome := refused (literal "duplicated command")

inductive Command where
  | add (argv1 : Arg)
  | execute (argv0 argv1 : Arg)
  /-- `behind` is what 33 bytes copied from behind the array hold. -/
  | remove (argv1 : Arg) (behind : Str)
  | show
  | get (idx : Nat)

/-- `dynamic_cmd_buffer` and `dynamic_cmd_cnt`. -/
structure Table where
  rows : List Str
  cnt : Nat

def Table.start : Table := ⟨List.replicate maxCmdCnt emptyStr, 0⟩

def qsort (n : Nat) (rows : List Str) : List Str :=
  (rows.take n).mergeSort (fun a b => decide (Before a b)) ++ rows.drop n

def Table.cmdDynamicAdd (t : Table) (argv1 : Arg) : Table × Outcome :=
  if maxCmdCnt ≤ t.cnt then (t, refused (literal "command limit reached"))
  else
    match badName argv1 with
    | some reason => (t, reason)
    | none =>
      -- all the rows are compared, not only those in use
      if t.rows.any (holds argv1.text) then (t, duplicated)
      else
        (⟨qsort (t.cnt + 1) (t.rows.set t.cnt argv1.text), t.cnt + 1⟩,
          done (literal "command added successfully"))

def Table.cmdDynamicExecute (t : Table) (argv0 argv1 : Arg) : Outcome :=
  if (t.rows.take t.cnt).any (holds argv1.text) then
    done (literal "dynamic command: " ++ argv1.text.1)
  else refused (argv0.text.1 ++ literal ": unknown parameter: " ++ argv1.text.1)

/-- `memmove(rows[idx], rows[idx + 1], cnt - idx rows)`, reading `behind` after the last row. -/
def memmove (rows : List Str) (idx cnt : Nat) (behind : Str) : List Str :=
  rows.take idx ++ ((rows ++ [behind]).drop (idx + 1)).take (cnt - idx) ++
    rows.drop (idx + (cnt - idx))

def Table.cmdDynamicRemove (t : Table) (argv1 : Arg) (behind : Str) : Table × Outcome :=
  match (t.rows.take t.cnt).findIdx? (holds argv1.text) with
  | some idx =>
    (⟨if idx = maxCmdCnt - 1 then t.rows.set idx emptyStr
      else memmove t.rows idx t.cnt behind, t.cnt - 1⟩,
        done (literal "command removed successfully"))
  | none => (t, refused (literal "did not find command: " ++ argv1.text.1))

/-- The text of `[%3d] %s`. -/
def listed (i : Nat) (row : Str) : List UInt8 :=
  let digits := literal (toString i)
  literal "[" ++ List.replicate (3 - digits.length) 0x20 ++ digits ++ literal "] " ++ row.1

def Table.cmdDynamicShow (t : Table) : Outcome :=
  if t.cnt = 0 then .returned (-enoexec) [(.warn, literal "Please add some commands first.")]
  else
    .returned 0 ((.print, literal "Dynamic command list:") ::
      (t.rows.take t.cnt).mapIdx fun i row => (.print, listed i row))

def Table.dynamicCmdGet (t : Table) (idx : Nat) : Outcome :=
  if idx < t.cnt then .entry t.rows[idx]? (some (literal "Show dynamic command name."))
  else .entry none none

def Table.step (t : Table) : Command → Table × Outcome
  | .add argv1 => t.cmdDynamicAdd argv1
  | .execute argv0 argv1 => (t, t.cmdDynamicExecute argv0 argv1)
  | .remove argv1 behind => t.cmdDynamicRemove argv1 behind
  | .show => (t, t.cmdDynamicShow)
  | .get idx => (t, t.dynamicCmdGet idx)

/-- What the table is for: a set of at most 20 names. -/
structure Registry where
  names : Finset Str
  card_le : names.card ≤ maxCmdCnt

def Registry.empty : Registry := ⟨∅, Finset.card_empty.trans_le (Nat.zero_le _)⟩

/-- Whether a command puts its argument into the set. -/
def Registry.accepts (r : Registry) (argv1 : Arg) : Prop :=
  r.names.card < maxCmdCnt ∧ badName argv1 = none ∧ argv1.text ∉ r.names

instance (r : Registry) (argv1 : Arg) : Decidable (r.accepts argv1) :=
  inferInstanceAs (Decidable (_ ∧ _ ∧ _))

theorem Registry.card_insert_le {r : Registry} {argv1 : Arg} (h : r.accepts argv1) :
    (insert argv1.text r.names).card ≤ maxCmdCnt :=
  (Finset.card_insert_le argv1.text r.names).trans h.1

def Registry.add (r : Registry) (argv1 : Arg) : Registry × Outcome :=
  if h : r.accepts argv1 then
    (⟨insert argv1.text r.names, Registry.card_insert_le h⟩,
      done (literal "command added successfully"))
  else if maxCmdCnt ≤ r.names.card then (r, refused (literal "command limit reached"))
  else (r, (badName argv1).getD duplicated)

def Registry.remove (r : Registry) (argv1 : Arg) : Registry × Outcome :=
  if argv1.text ∈ r.names then
    (⟨r.names.erase argv1.text, (Finset.card_erase_le).trans r.card_le⟩,
      done (literal "command removed successfully"))
  else (r, refused (literal "did not find command: " ++ argv1.text.1))

def Registry.step (r : Registry) : Command → Registry × Outcome
  | .add argv1 => r.add argv1
  | .execute argv0 argv1 =>
    (r, if argv1.text ∈ r.names then done (literal "dynamic command: " ++ argv1.text.1)
      else refused (argv0.text.1 ++ literal ": unknown parameter: " ++ argv1.text.1))
  | .remove argv1 _ => r.remove argv1
  | .show =>
    (r, if r.names = ∅ then .returned (-enoexec)
      [(.warn, literal "Please add some commands first.")]
      else .returned 0 ((.print, literal "Dynamic command list:") ::
        (r.names.sort Before).mapIdx fun i row => (.print, listed i row)))
  | .get idx =>
    let entrySyntax := (r.names.sort Before)[idx]?
    (r, .entry entrySyntax (entrySyntax.map fun _ => literal "Show dynamic command name."))

/-- The set with the name that every row not in use holds. -/
structure Filled where
  registry : Registry
  filler : Str

def Filled.empty : Filled := ⟨Registry.empty, emptyStr⟩

/-- The rows not in use after a command: a removal from a full table leaves a row of its own. -/
def Filled.nextFiller (f : Filled) : Command → Str
  | .remove argv1 behind =>
    if argv1.text ∈ f.registry.names ∧ f.registry.names.card = maxCmdCnt then
      if ∀ name ∈ f.registry.names, Before name argv1.text then emptyStr else behind
    else f.filler
  | _ => f.filler

/-- The commands that add a new name which the rows not in use hold already. -/
def Filled.collides (f : Filled) : Command → Prop
  | .add argv1 => f.registry.accepts argv1 ∧ argv1.text = f.filler
  | _ => False

instance (f : Filled) : (c : Command) → Decidable (f.collides c)
  | .add _ => inferInstanceAs (Decidable (_ ∧ _))
  | .execute _ _ | .remove _ _ | .show | .get _ => isFalse id

def Filled.step (f : Filled) (c : Command) : Filled × Outcome :=
  if f.collides c then (f, duplicated)
  else (⟨(f.registry.step c).1, f.nextFiller c⟩, (f.registry.step c).2)

theorem holds_iff {name row : Str} : holds name row = true ↔ row = name :=
  beq_iff_eq.trans stringCmp_eq_zero

theorem any_holds {rows : List Str} {name : Str} : rows.any (holds name) = true ↔ name ∈ rows := by
  rw [List.any_eq_true]
  constructor
  · rintro ⟨row, hmem, hrow⟩
    exact holds_iff.mp hrow ▸ hmem
  · exact fun hmem => ⟨name, hmem, holds_iff.mpr rfl⟩

/-- Rows moved down by one over the row at `idx` of those in use. -/
theorem memmove_append {l rest : List Str} {idx : Nat} (hidx : idx < l.length) (behind : Str) :
    memmove (l ++ rest) idx l.length behind =
      l.eraseIdx idx ++ ((rest ++ [behind]).take 1 ++ rest) := by
  have hread : (l ++ rest ++ [behind]).drop (idx + 1) = l.drop (idx + 1) ++ (rest ++ [behind]) := by
    rw [List.append_assoc]
    exact List.drop_append_of_le_length hidx
  have hcopied : (l.drop (idx + 1) ++ (rest ++ [behind])).take (l.length - idx) =
      l.drop (idx + 1) ++ (rest ++ [behind]).take 1 := by
    have hlen : (l.drop (idx + 1)).length = l.length - (idx + 1) := List.length_drop
    have hcount : l.length - idx - (l.drop (idx + 1)).length = 1 := by omega
    rw [List.take_append, hcount, List.take_of_length_le (by omega)]
  have hfirst : (l ++ rest).take idx = l.take idx :=
    List.take_append_of_le_length (Nat.le_of_lt hidx)
  have hlast : (l ++ rest).drop (idx + (l.length - idx)) = rest := by
    rw [Nat.add_sub_cancel' (Nat.le_of_lt hidx)]
    exact List.drop_left
  rw [memmove, hread, hcopied, hfirst, hlast, List.eraseIdx_eq_take_drop_succ]
  simp only [List.append_assoc]

/-- The table that holds a set. -/
def Filled.table (f : Filled) : Table :=
  ⟨f.registry.names.sort Before ++ List.replicate (maxCmdCnt - f.registry.names.card) f.filler,
    f.registry.names.card⟩

section Simulation

variable (f : Filled)

theorem Filled.table_mk (names : Finset Str) (hle : names.card ≤ maxCmdCnt) (filler : Str) :
    (⟨⟨names, hle⟩, filler⟩ : Filled).table =
      ⟨names.sort Before ++ List.replicate (maxCmdCnt - names.card) filler, names.card⟩ := rfl

theorem Filled.table_cnt : f.table.cnt = f.registry.names.card := rfl

theorem Filled.inUse : f.table.rows.take f.table.cnt = f.registry.names.sort Before :=
  List.take_left' (Finset.length_sort Before)

/-- Below the limit a row holds a name when the set does or the filler is that name. -/
theorem Filled.any_rows (hroom : f.registry.names.card < maxCmdCnt) (name : Str) :
    f.table.rows.any (holds name) = true ↔ name ∈ f.registry.names ∨ name = f.filler := by
  rw [any_holds, Filled.table, List.mem_append, Finset.mem_sort, List.mem_replicate]
  exact or_congr_right (and_iff_right (by omega))

/-- Adding a name that no row holds sorts it in. -/
theorem Filled.qsort_table (hroom : f.registry.names.card < maxCmdCnt) {name : Str}
    (hnew : name ∉ f.registry.names) :
    qsort (f.table.cnt + 1) (f.table.rows.set f.table.cnt name) =
      (insert name f.registry.names).sort Before ++
        List.replicate (maxCmdCnt - (f.registry.names.card + 1)) f.filler := by
  have hlen : (f.registry.names.sort Before).length = f.registry.names.card :=
    Finset.length_sort Before
  have hrest : maxCmdCnt - f.registry.names.card = maxCmdCnt - (f.registry.names.card + 1) + 1 := by
    omega
  have hset : f.table.rows.set f.table.cnt name = (f.registry.names.sort Before ++ [name]) ++
      List.replicate (maxCmdCnt - (f.registry.names.card + 1)) f.filler := by
    rw [Filled.table, hrest, List.replicate_succ,
      List.set_append_right _ _ (Nat.le_of_eq hlen), hlen, Nat.sub_self, List.set_cons_zero,
      List.append_assoc]
    rfl
  have hcnt : (f.registry.names.sort Before ++ [name]).length = f.table.cnt + 1 := by
    rw [List.length_append, hlen]
    rfl
  rw [hset, qsort, List.take_left' hcnt, List.drop_left' hcnt, SortedFinset.mergeSort_insert hnew]

theorem Filled.step_refused {argv1 : Arg} (h : ¬ f.registry.accepts argv1) :
    f.step (.add argv1) = (f, (f.registry.add argv1).2) := by
  have hreg : (f.registry.add argv1).1 = f.registry := by
    rw [Registry.add, dif_neg h]
    split_ifs <;> rfl
  have hnocol : ¬ f.collides (.add argv1) := fun hcol => h hcol.1
  rw [Filled.step, if_neg hnocol]
  exact congrArg (fun r => ((⟨r, f.filler⟩ : Filled), _)) hreg

theorem Filled.add_eq (argv1 : Arg) :
    f.table.cmdDynamicAdd argv1 = ((f.step (.add argv1)).1.table, (f.step (.add argv1)).2) := by
  rw [Table.cmdDynamicAdd, Filled.table_cnt]
  by_cases hroom : f.registry.names.card < maxCmdCnt
  · rw [if_neg (Nat.not_le_of_lt hroom)]
    cases hbad : badName argv1 with
    | some reason =>
        have hno : ¬ f.registry.accepts argv1 := fun h =>
          Option.some_ne_none _ (hbad.symm.trans h.2.1)
        rw [f.step_refused hno, Registry.add, dif_neg hno, if_neg (Nat.not_le_of_lt hroom), hbad]
        rfl
    | none =>
        by_cases hmem : argv1.text ∈ f.registry.names
        · have hno : ¬ f.registry.accepts argv1 := fun h => h.2.2 hmem
          rw [f.step_refused hno, Registry.add, dif_neg hno, if_neg (Nat.not_le_of_lt hroom), hbad]
          exact if_pos ((f.any_rows hroom _).mpr (Or.inl hmem))
        · have hyes : f.registry.accepts argv1 := ⟨hroom, hbad, hmem⟩
          by_cases hfill : argv1.text = f.filler
          · have hcol : f.collides (.add argv1) := ⟨hyes, hfill⟩
            rw [Filled.step, if_pos hcol]
            exact if_pos ((f.any_rows hroom _).mpr (Or.inr hfill))
          · have hnocol : ¬ f.collides (.add argv1) := fun h => hfill h.2
            have hnew : ¬ f.table.rows.any (holds argv1.text) = true := fun h =>
              ((f.any_rows hroom _).mp h).elim hmem hfill
            rw [Filled.step, if_neg hnocol, Registry.step, Registry.add, dif_pos hyes]
            dsimp only
            rw [if_neg hnew, ← Filled.table_cnt, f.qsort_table hroom hmem, Filled.table_cnt,
              Filled.table_mk, Finset.card_insert_of_notMem hmem]
            rfl
  · have hno : ¬ f.registry.accepts argv1 := fun h => hroom h.1
    have hfull : maxCmdCnt ≤ f.registry.names.card := Nat.le_of_not_lt hroom
    rw [if_pos hfull, f.step_refused hno, Registry.add, dif_neg hno, if_pos hfull]

/-- The place at which the loops over the rows in use find a name of the set. -/
theorem Filled.findIdx_some {name : Str} {idx : Nat}
    (h : (f.table.rows.take f.table.cnt).findIdx? (holds name) = some idx) :
    (f.registry.names.sort Before)[idx]? = some name := by
  rw [f.inUse, List.findIdx?_eq_some_iff_getElem] at h
  obtain ⟨hlt, hhold, -⟩ := h
  rw [List.getElem?_eq_getElem hlt, holds_iff.mp hhold]

theorem Filled.findIdx_none {name : Str}
    (h : (f.table.rows.take f.table.cnt).findIdx? (holds name) = none) :
    name ∉ f.registry.names := by
  rw [f.inUse, List.findIdx?_eq_none_iff] at h
  intro hmem
  have hrow := h name ((Finset.mem_sort Before).mpr hmem)
  exact Bool.false_ne_true (hrow.symm.trans (holds_iff.mpr rfl))

theorem Filled.remove_rows {argv1 : Arg} {behind : Str} {idx : Nat}
    (hmem : argv1.text ∈ f.registry.names)
    (hidx : (f.registry.names.sort Before)[idx]? = some argv1.text) :
    (if idx = maxCmdCnt - 1 then f.table.rows.set idx emptyStr
      else memmove f.table.rows idx f.table.cnt behind) =
      (f.registry.names.erase argv1.text).sort Before ++
        List.replicate (maxCmdCnt - (f.registry.names.card - 1))
          (f.nextFiller (.remove argv1 behind)) := by
  have hlen : (f.registry.names.sort Before).length = f.registry.names.card :=
    Finset.length_sort Before
  have hlt : idx < (f.registry.names.sort Before).length := (List.getElem?_eq_some_iff.mp hidx).1
  have hle := f.registry.card_le
  rw [← SortedFinset.eraseIdx_sort hidx]
  by_cases hfull : f.registry.names.card = maxCmdCnt
  · have hone : maxCmdCnt - (f.registry.names.card - 1) = 1 := by
      rw [hfull]
      rfl
    have hrows : f.table.rows = f.registry.names.sort Before := by
      rw [Filled.table, hfull, Nat.sub_self, List.replicate_zero, List.append_nil]
    have hlast : idx = maxCmdCnt - 1 ↔ ∀ name ∈ f.registry.names, Before name argv1.text := by
      rw [← SortedFinset.last_sort_iff hidx]
      omega
    have hfiller : f.nextFiller (.remove argv1 behind) =
        if ∀ name ∈ f.registry.names, Before name argv1.text then emptyStr else behind :=
          if_pos ⟨hmem, hfull⟩
    rw [hone, hfiller, List.replicate_one, hrows, Filled.table_cnt]
    by_cases hgreatest : idx = maxCmdCnt - 1
    · rw [if_pos hgreatest, if_pos (hlast.mp hgreatest),
        List.set_eq_take_append_cons_drop, if_pos hlt,
        List.eraseIdx_eq_take_drop_succ, List.drop_of_length_le (by omega), List.append_nil]
    · have hmove : memmove (_ ++ []) idx _ behind = _ := memmove_append hlt behind
      rw [List.append_nil, hlen] at hmove
      rw [if_neg hgreatest, if_neg fun h => hgreatest (hlast.mpr h), hmove]
      rfl
  · have hroom : f.registry.names.card < maxCmdCnt := lt_of_le_of_ne hle hfull
    have hfiller : f.nextFiller (.remove argv1 behind) = f.filler := if_neg fun h => hfull h.2
    have hmore : maxCmdCnt - f.registry.names.card =
      maxCmdCnt - (f.registry.names.card + 1) + 1 := by omega
    have hback : maxCmdCnt - (f.registry.names.card - 1) =
      maxCmdCnt - f.registry.names.card + 1 := by omega
    have hmove : memmove (_ ++ List.replicate (maxCmdCnt - f.registry.names.card) f.filler) idx
        _ behind = _ :=
      memmove_append hlt behind
    rw [hlen] at hmove
    rw [if_neg (by omega), Filled.table_cnt, Filled.table, hmove, hfiller, hback,
      List.replicate_succ, hmore]
    rfl

theorem Filled.remove_eq (argv1 : Arg) (behind : Str) :
    f.table.cmdDynamicRemove argv1 behind =
      ((f.step (.remove argv1 behind)).1.table, (f.step (.remove argv1 behind)).2) := by
  have hnocol : ¬ f.collides (.remove argv1 behind) := id
  rw [Table.cmdDynamicRemove, Filled.step, if_neg hnocol, Registry.step, Registry.remove]
  cases hfind : (f.table.rows.take f.table.cnt).findIdx? (holds argv1.text) with
  | some idx =>
      have hidx := f.findIdx_some hfind
      have hmem := (Finset.mem_sort Before).mp (List.mem_of_getElem? hidx)
      dsimp only
      rw [if_pos hmem, f.remove_rows hmem hidx, Filled.table_cnt, Filled.table_mk,
        Finset.card_erase_of_mem hmem]
  | none =>
      have hmem := f.findIdx_none hfind
      have hkeep : f.nextFiller (.remove argv1 behind) = f.filler := if_neg fun h => hmem h.1
      dsimp only
      rw [if_neg hmem, hkeep]

theorem Filled.execute_eq (argv0 argv1 : Arg) :
    f.table.cmdDynamicExecute argv0 argv1 = (f.registry.step (.execute argv0 argv1)).2 := by
  rw [Table.cmdDynamicExecute, f.inUse]
  apply if_congr _ rfl rfl
  rw [any_holds, Finset.mem_sort]

theorem Filled.show_eq : f.table.cmdDynamicShow = (f.registry.step .show).2 := by
  rw [Table.cmdDynamicShow, f.inUse]
  exact if_congr Finset.card_eq_zero rfl rfl

theorem Filled.get_eq (idx : Nat) : f.table.dynamicCmdGet idx = (f.registry.step (.get idx)).2 := by
  have hlen : (f.registry.names.sort Before).length = f.registry.names.card :=
    Finset.length_sort Before
  rw [Table.dynamicCmdGet, Filled.table_cnt, Registry.step]
  split_ifs with hidx
  · have hrow : f.table.rows[idx]? = (f.registry.names.sort Before)[idx]? :=
      List.getElem?_append_left (by omega)
    rw [hrow, List.getElem?_eq_getElem (by omega)]
    rfl
  · rw [List.getElem?_eq_none (by omega)]
    rfl

/-- One command on the table of a set. -/
theorem Filled.step_eq (c : Command) : f.table.step c = ((f.step c).1.table, (f.step c).2) := by
  cases c with
  | add argv1 => exact f.add_eq argv1
  | remove argv1 behind => exact f.remove_eq argv1 behind
  | execute argv0 argv1 => exact congrArg (f.table, ·) (f.execute_eq argv0 argv1)
  | «show» => exact congrArg (f.table, ·) f.show_eq
  | get idx => exact congrArg (f.table, ·) (f.get_eq idx)

end Simulation

theorem Filled.table_empty : Filled.empty.table = Table.start := by
  have hnone : (∅ : Finset Str).sort Before = [] := Finset.sort_empty Before
  exact congrArg (fun rows => (⟨rows ++ List.replicate maxCmdCnt emptyStr, 0⟩ : Table)) hnone

/-- A run of the table is a run of the set. -/
theorem table_run (cmds : List Command) :
    Transducer.final Table.step Table.start cmds =
      (Transducer.final Filled.step Filled.empty cmds).table ∧
      Transducer.outputs Table.step Table.start cmds =
        Transducer.outputs Filled.step Filled.empty cmds := by
  rw [← Filled.table_empty]
  exact Transducer.run_map Filled.step_eq Filled.empty cmds

def Outcome.ok : Outcome → Bool
  | .returned code _ => code == 0
  | .entry _ _ => false

/-- Whether a name is in the table after a command that had this outcome. -/
def changed (name : Str) (was : Bool) : Command × Outcome → Bool
  | (.add argv1, outcome) => if argv1.text = name ∧ outcome.ok then true else was
  | (.remove argv1 _, outcome) => if argv1.text = name ∧ outcome.ok then false else was
  | _ => was

def Wellformed (name : Str) : Prop := name.1.length < maxCmdLen ∧ name.1.all isalnum = true

theorem wellformed_of_badName {argv1 : Arg} (h : badName argv1 = none) : Wellformed argv1.text := by
  rw [badName] at h
  split_ifs at h with hlen hall
  exact ⟨Nat.lt_of_not_le hlen, hall⟩

theorem badName_not_ok {argv1 : Arg} {reason : Outcome} (h : badName argv1 = some reason) :
    reason.ok = false := by
  rw [badName] at h
  split_ifs at h
  · exact Option.some.inj h ▸ rfl
  · exact Option.some.inj h ▸ rfl

theorem Registry.add_not_ok {r : Registry} {argv1 : Arg} (h : ¬ r.accepts argv1) :
    (r.add argv1).2.ok = false := by
  rw [Registry.add, dif_neg h]
  split_ifs
  · rfl
  · cases hbad : badName argv1 with
    | none => rfl
    | some reason => exact badName_not_ok hbad

/-- What one command does to the membership of a name. -/
theorem Filled.mem_step (f : Filled) (c : Command) (name : Str) :
    (decide (name ∈ (f.step c).1.registry.names)) =
      changed name (decide (name ∈ f.registry.names)) (c, (f.step c).2) := by
  cases c with
  | add argv1 =>
      by_cases hacc : f.registry.accepts argv1
      · by_cases hfill : argv1.text = f.filler
        · have hcol : f.collides (.add argv1) := ⟨hacc, hfill⟩
          rw [Filled.step, if_pos hcol]
          exact (if_neg fun h => Bool.false_ne_true h.2).symm
        · have hnocol : ¬ f.collides (.add argv1) := fun h => hfill h.2
          rw [Filled.step, if_neg hnocol, Registry.step, Registry.add, dif_pos hacc, changed]
          by_cases heq : argv1.text = name
          · rw [if_pos ⟨heq, rfl⟩, decide_eq_true_iff, ← heq]
            exact Finset.mem_insert_self _ _
          · rw [if_neg fun h => heq h.1]
            exact decide_eq_decide.mpr
              ((Finset.mem_insert).trans (or_iff_right fun h => heq h.symm))
      · have hfail := Registry.add_not_ok hacc
        rw [f.step_refused hacc, changed, if_neg fun h => Bool.false_ne_true (hfail.symm.trans h.2)]
  | remove argv1 behind =>
      have hnocol : ¬ f.collides (.remove argv1 behind) := id
      rw [Filled.step, if_neg hnocol, Registry.step, Registry.remove, changed]
      by_cases hmem : argv1.text ∈ f.registry.names
      · rw [if_pos hmem]
        by_cases heq : argv1.text = name
        · rw [if_pos ⟨heq, rfl⟩, decide_eq_false_iff_not, ← heq]
          exact Finset.notMem_erase _ _
        · rw [if_neg fun h => heq h.1]
          exact decide_eq_decide.mpr ((Finset.mem_erase).trans (and_iff_right fun h => heq h.symm))
      · rw [if_neg hmem, if_neg fun h => Bool.false_ne_true h.2]
  | execute argv0 argv1 => rfl
  | «show» => rfl
  | get idx => rfl

theorem Filled.mem_final (f : Filled) (cmds : List Command) (name : Str) :
    decide (name ∈ (Transducer.final Filled.step f cmds).registry.names) =
      (cmds.zip (Transducer.outputs Filled.step f cmds)).foldl (changed name)
        (decide (name ∈ f.registry.names)) := by
  induction cmds generalizing f with
  | nil => rfl
  | cons c cmds ih =>
      rw [Transducer.outputs, List.zip_cons_cons, List.foldl_cons, ← f.mem_step c name]
      exact ih (f.step c).1

theorem Filled.wellformed_step {f : Filled} (h : ∀ name ∈ f.registry.names, Wellformed name)
    (c : Command) :
    ∀ name ∈ (f.step c).1.registry.names, Wellformed name := by
  intro name hname
  by_cases hcol : f.collides c
  · rw [Filled.step, if_pos hcol] at hname
    exact h name hname
  · cases c with
    | add argv1 =>
        by_cases hacc : f.registry.accepts argv1
        · rw [Filled.step, if_neg hcol, Registry.step, Registry.add, dif_pos hacc] at hname
          rcases Finset.mem_insert.mp hname with rfl | hold
          · exact wellformed_of_badName hacc.2.1
          · exact h name hold
        · rw [f.step_refused hacc] at hname
          exact h name hname
    | remove argv1 behind =>
        rw [Filled.step, if_neg hcol, Registry.step, Registry.remove] at hname
        split_ifs at hname
        · exact h name (Finset.mem_of_mem_erase hname)
        · exact h name hname
    | execute argv0 argv1 => exact h name hname
    | «show» => exact h name hname
    | get idx => exact h name hname

theorem Filled.wellformed_final {f : Filled} (h : ∀ name ∈ f.registry.names, Wellformed name)
    (cmds : List Command) :
    ∀ name ∈ (Transducer.final Filled.step f cmds).registry.names, Wellformed name := by
  induction cmds generalizing f with
  | nil => exact h
  | cons c cmds ih => exact ih (Filled.wellformed_step h c)

/-- Every run of the commands: the rows in use are in strict order, each a name, and just those
whose last successful command added them. -/
theorem dynamic_names_exact (cmds : List Command) :
    let t := Transducer.final Table.step Table.start cmds
    let log := cmds.zip (Transducer.outputs Table.step Table.start cmds)
    t.rows.length = maxCmdCnt ∧ t.cnt ≤ maxCmdCnt ∧
      (t.rows.take t.cnt).Pairwise (fun a b => stringCmp a b < 0) ∧
      (∀ row ∈ t.rows.take t.cnt, Wellformed row) ∧
      ∀ name, name ∈ t.rows.take t.cnt ↔ log.foldl (changed name) false = true := by
  intro t log
  obtain ⟨hfinal, hout⟩ := table_run cmds
  set f := Transducer.final Filled.step Filled.empty cmds with hf
  have ht : t = f.table := hfinal
  have hmem : ∀ name, name ∈ t.rows.take t.cnt ↔ name ∈ f.registry.names := by
    intro name
    rw [ht, f.inUse, Finset.mem_sort]
  refine ⟨?_, ht ▸ f.registry.card_le, ?_, fun row hrow => ?_, fun name => ?_⟩
  · have hle := f.registry.card_le
    rw [ht, Filled.table, List.length_append, Finset.length_sort, List.length_replicate]
    omega
  · rw [ht, f.inUse]
    have hdistinct := Finset.sort_nodup f.registry.names Before
    refine List.Pairwise.imp₂ ?_ (Finset.pairwise_sort f.registry.names Before) hdistinct
    exact fun a b hbefore hne => lt_of_le_of_ne hbefore fun h => hne (stringCmp_eq_zero.mp h)
  · exact Filled.wellformed_final (fun name h => absurd h (Finset.notMem_empty name)) cmds row
      ((hmem row).mp hrow)
  · have hlog := Filled.empty.mem_final cmds name
    rw [hmem name, ← decide_eq_true_iff (p := name ∈ f.registry.names), hlog]
    exact iff_of_eq (congrArg (· = true)
      (congrArg (List.foldl (changed name) false) (congrArg cmds.zip hout.symm)))

/-- The handlers answer as a plain set of at most 20 names would, exactly in the runs in which
no new name is added that the rows not in use hold. -/
theorem dynamic_as_registry_iff (cmds : List Command) :
    Transducer.outputs Table.step Table.start cmds =
      Transducer.outputs Registry.step Registry.empty cmds ↔
      GuardedRun.Follows (fun f c => (f.step c).1) (fun f c => ¬ f.collides c)
        Filled.empty cmds := by
  rw [(table_run cmds).2]
  refine Transducer.outputs_eq_iff (f := Filled.registry) (fun f c hok => ?_) (fun f c hcol => ?_)
    Filled.empty cmds
  · rw [Filled.step, if_neg hok]
  · rw [Filled.step, if_pos (not_not.mp hcol)]
    cases c with
    | add argv1 =>
        rw [Registry.step, Registry.add, dif_pos (not_not.mp hcol).1]
        intro h
        exact absurd (Outcome.returned.inj h).1 (by decide)
    | execute _ _ | remove _ _ | «show» | get _ => exact absurd id hcol

end LinkedsemiZephyr.Shell
