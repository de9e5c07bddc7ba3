import MorningProjects.Common.Status
import MorningProjects.Library.CString
import MorningProjects.Library.Words

/-!
# The command line parser

`COMMON_CMD_parser` collects the words of a line in an array of 100 pointers, copies
the first one to a field of 12 characters and the others to blocks from `malloc`. A
call has no result when an access leaves its array or block, or a length runs below
zero.
-/
namespace MorningProjects.Common
open Library

def maxCmdLength : ℕ := 12
def maxWords : ℕ := 100

def space : UInt8 := 32
def quote : UInt8 := 34
def dash : UInt8 := 45

/-- The answers of `malloc`, call by call: NULL, or memory and what it happens to hold. -/
abbrev Mallocs := ℕ → Option (ℕ → UInt8)

def block (mem : ℕ → UInt8) (n : ℕ) : List UInt8 := (List.range n).map mem

def strcpy (dst src : List UInt8) : Option (List UInt8) :=
  if src.length < dst.length then some (src ++ 0 :: dst.drop (src.length + 1)) else none

/-- A shorter source is filled up with zeros. -/
def strncpy (dst src : List UInt8) (n : ℕ) : Option (List UInt8) :=
  if n ≤ dst.length then
    some (src.take n ++ List.replicate (n - src.length) 0 ++ dst.drop n) else none

def setByte (dst : List UInt8) (i : ℕ) (b : UInt8) : Option (List UInt8) :=
  if i < dst.length then some (dst.set i b) else none

/-- A difference of lengths that is not below zero. -/
def checkedSub (m n : ℕ) : Option ℕ := if n ≤ m then some (m - n) else none

/-- A pointer is `none` for NULL, a block is the list of its bytes. -/
structure CmdLine where
  cmd : List UInt8
  numOptions : ℕ
  option : Option (List UInt8)
  numParams : ℕ
  params : Option (List (Option (List UInt8)))
  deriving DecidableEq, Repr

def CmdLine.zeroed : CmdLine := ⟨List.replicate maxCmdLength 0, 0, none, 0, none⟩

/-- The loop over `strtok`, with the room that is left in the array for a word or the NULL behind
the last one. -/
def splitLine : ℕ → List UInt8 → Option (List (List UInt8))
  | 0, _ => none
  | room + 1, line =>
    match strtok space line with
    | none => some []
    | some (w, rest) => (splitLine room rest).map (w :: ·)

/-- The second word, if it has options: status, line, the number of params and of calls of
`malloc`. -/
def parseOption (malloc : Mallocs) (c : CmdLine) (ws : List (List UInt8)) (paramCounter : ℕ) :
    Option (SystemStatus × CmdLine × ℕ × ℕ) :=
  let word := ws.getD 1 []
  if 0 < paramCounter ∧ word.head? = some dash then
    let numOptions := (word.length - 1) % 2 ^ 32
    match malloc 0 with
    | none => some (.fail, { c with numOptions := numOptions }, paramCounter, 1)
    | some mem =>
      (strcpy (block mem numOptions) (word.drop 1)).map fun option =>
        (.ok, { c with numOptions := numOptions, option := some option }, paramCounter - 1, 1)
  else some (.ok, c, paramCounter, 0)

/-- The length of a param and where it starts, or no param where quotes do not match. -/
def measureParam (w : List UInt8) : Option (Option (ℕ × List UInt8)) :=
  if w.head? = some quote ∧ w.getLast? = some quote then
    (checkedSub w.length 2).map fun n => some (n % 2 ^ 32, w.drop 1)
  else if w.head? ≠ some quote ∧ w.getLast? ≠ some quote then
    some (some (w.length % 2 ^ 32, w))
  else some none

structure Copied where
  status : SystemStatus
  params : List (Option (List UInt8))
  calls : ℕ

/-- One round of the loop over the params, with the length of their array if there is one. -/
def copyParam (malloc : Mallocs) (array : Option ℕ) (s : Copied) (w : List UInt8) :
    Option Copied :=
  (measureParam w).bind fun
    | none => some { s with status := .fail }
    | some (length, src) =>
      if s.status ≠ .ok then some s
      else array.bind fun n =>
        if n ≤ s.params.length then none
        else match malloc s.calls with
          | none => some ⟨.fail, s.params ++ [none], s.calls + 1⟩
          | some mem =>
            (strncpy (block mem ((length + 1) % 2 ^ 32)) src length).bind fun b =>
              (setByte b ((length + 1) % 2 ^ 32) 0).map fun b =>
                ⟨.ok, s.params ++ [some b], s.calls + 1⟩

def copyParams (malloc : Mallocs) (array : Option ℕ) : Copied → List (List UInt8) → Option Copied
  | s, [] => some s
  | s, w :: ws => (copyParam malloc array s w).bind fun s => copyParams malloc array s ws

def parseParams (malloc : Mallocs) (ws : List (List UInt8)) :
    SystemStatus × CmdLine × ℕ × ℕ → Option (SystemStatus × CmdLine)
  | (status, c, paramCounter, calls) =>
    if status = .ok ∧ 0 < paramCounter then
      let i := if c.option = none then 1 else 2
      let array := (malloc calls).map fun _ => paramCounter
      (copyParams malloc array ⟨.ok, [], calls + 1⟩ (ws.drop i)).map fun s =>
        (s.status, { c with numParams := paramCounter, params := array.map fun _ => s.params })
    else some (status, c)

def commonCmdParser (malloc : Mallocs) (line : CString) : Option (SystemStatus × CmdLine) :=
  (splitLine maxWords line.bytes).bind fun ws =>
    (checkedSub ws.length 1).bind fun paramCounter =>
      if maxCmdLength < (ws.headD []).length then some (.fail, .zeroed)
      else
        (strcpy CmdLine.zeroed.cmd (ws.headD [])).bind fun cmd =>
          (parseOption malloc { CmdLine.zeroed with cmd := cmd } ws paramCounter).bind
            (parseParams malloc ws)

/-! ### What has to come out -/

/-- A string, terminated right behind its last character. -/
def Holds (buf s : List UInt8) : Prop := ∃ rest, buf = s ++ 0 :: rest

def unquote (w : List UInt8) : List UInt8 :=
  if 2 ≤ w.length ∧ w.head? = some quote ∧ w.getLast? = some quote then (w.drop 1).dropLast else w

def lettersOf (w : List UInt8) : Option (List UInt8) :=
  if w.head? = some dash then some (w.drop 1) else none

def paramWords (ws : List (List UInt8)) : List (List UInt8) :=
  if (lettersOf (ws.getD 1 [])).isSome then ws.drop 2 else ws.drop 1

/-- The parse of a line: its first word, the letters of its second one if it has options, and the
others without their quotes. -/
structure CmdLine.Parses (c : CmdLine) (ws : List (List UInt8)) : Prop where
  cmd : ∃ w, ws.head? = some w ∧ Holds c.cmd w
  option : c.option = lettersOf (ws.getD 1 [])
  numOptions : c.numOptions = ((lettersOf (ws.getD 1 [])).getD []).length
  numParams : c.numParams = (paramWords ws).length
  params : List.Forall₂ (fun b w => ∃ buf, b = some buf ∧ Holds buf (unquote w))
    (c.params.getD []) (paramWords ws)

def ParsesOrFails (malloc : Mallocs) (line : CString) : Prop :=
  ∃ status c, commonCmdParser malloc line = some (status, c) ∧
    (status = .ok → c.Parses (words space line.bytes))

/-! ### Which lines are parsed -/

def OneQuote (w : List UInt8) : Prop := ¬ (w.head? = some quote ↔ w.getLast? = some quote)

instance (w : List UInt8) : Decidable (OneQuote w) := inferInstanceAs (Decidable (¬ _))

/-- Options are parsed without memory for them; params are when the first one has a quote at one
end only, or gets no memory from the second call of `malloc`, and none is a single quote. -/
def RestParsable (malloc : Mallocs) : List (List UInt8) → Prop
  | [] => True
  | w :: ws =>
    (w.head? = some dash → malloc 0 = none) ∧
    (w.head? ≠ some dash → (∀ v ∈ w :: ws, v ≠ [quote]) ∧
      (OneQuote w ∨ malloc 0 ≠ none ∧ malloc 1 = none))

/-- There are words, and room for them and the NULL behind; the first word is too long, or there
is room for it with its terminator. -/
def Parsable (malloc : Mallocs) : List (List UInt8) → Prop
  | [] => False
  | w :: ws => ws.length + 1 < maxWords ∧
    (maxCmdLength < w.length ∨ w.length < maxCmdLength ∧ RestParsable malloc ws)

section Stages

variable {malloc : Mallocs} {array : Option ℕ} {s : Copied} {w : List UInt8}
  {ws : List (List UInt8)} {c : CmdLine}

theorem splitLine_eq (room : ℕ) (line : List UInt8) :
    splitLine room line =
      if (words space line).length < room then some (words space line) else none := by
  induction room generalizing line with
  | zero => rfl
  | succ room ih =>
    rw [splitLine]
    cases hline : strtok space line with
    | none =>
      rw [strtok_eq_none hline]
      rfl
    | some answer =>
      obtain ⟨w, rest⟩ := answer
      rw [strtok_eq_some hline, List.length_cons]
      dsimp only
      rw [ih]
      by_cases hroom : (words space rest).length < room
      · rw [if_pos hroom, if_pos (by omega), Option.map_some]
      · rw [if_neg hroom, if_neg (by omega), Option.map_none]

theorem length_block (mem : ℕ → UInt8) (n : ℕ) : (block mem n).length = n := by
  rw [block, List.length_map, List.length_range]

/-- The terminator of the options is written behind their block. -/
theorem parseOption_dash {mem : ℕ → UInt8} {paramCounter : ℕ} (hparams : 0 < paramCounter)
    (hdash : (ws.getD 1 []).head? = some dash) (hmem : malloc 0 = some mem) :
    parseOption malloc c ws paramCounter = none := by
  have hne : ws.getD 1 [] ≠ [] := by
    intro hnil
    rw [hnil] at hdash
    cases hdash
  have hpos := List.length_pos_of_ne_nil hne
  have hle := Nat.mod_le ((ws.getD 1 []).length - 1) (2 ^ 32)
  rw [parseOption]
  dsimp only
  rw [if_pos ⟨hparams, hdash⟩, hmem]
  dsimp only
  rw [strcpy, if_neg, Option.map_none]
  rw [length_block, List.length_drop]
  omega

theorem parseParams_failed (c : CmdLine) (paramCounter calls : ℕ) :
    parseParams malloc ws (.fail, c, paramCounter, calls) = some (.fail, c) := by
  rw [parseParams, if_neg]
  rintro ⟨hok, -⟩
  cases hok

theorem measureParam_eq_none : measureParam w = none ↔ w = [quote] := by
  rw [measureParam]
  split_ifs with hboth hneither
  · rw [Option.map_eq_none_iff, checkedSub]
    constructor
    · intro hsub
      split_ifs at hsub with hlen
      have hne : w ≠ [] := by
        rintro rfl
        cases hboth.1
      obtain ⟨x, rest, rfl⟩ := List.exists_cons_of_ne_nil hne
      rw [List.length_cons] at hlen
      obtain rfl : rest = [] := List.eq_nil_of_length_eq_zero (by omega)
      rw [Option.some.inj hboth.1]
    · rintro rfl
      rfl
  · refine iff_of_false (by simp) ?_
    rintro rfl
    exact hneither.1 rfl
  · refine iff_of_false (by simp) ?_
    rintro rfl
    exact hboth ⟨rfl, rfl⟩

theorem measureParam_oneQuote (h : OneQuote w) : measureParam w = some none := by
  rw [OneQuote] at h
  rw [measureParam, if_neg (by tauto), if_neg (by tauto)]

theorem measureParam_of_not_oneQuote (h : ¬ OneQuote w) (hw : w ≠ [quote]) :
    ∃ length src, measureParam w = some (some (length, src)) := by
  rw [OneQuote, not_not] at h
  have hsome : measureParam w ≠ none := fun hnone => hw (measureParam_eq_none.mp hnone)
  rw [measureParam] at hsome ⊢
  split_ifs at hsome ⊢ with hboth hneither
  · obtain ⟨p, hp⟩ := Option.ne_none_iff_exists'.mp hsome
    obtain ⟨n, -, rfl⟩ := Option.map_eq_some_iff.mp hp
    exact ⟨_, _, hp⟩
  · exact ⟨_, _, rfl⟩
  · tauto

/-- The terminator of a param is written behind its block. -/
theorem strncpy_setByte {β : Type*} (mem : ℕ → UInt8) (src : List UInt8) (length : ℕ)
    (f : List UInt8 → β) :
    ((strncpy (block mem ((length + 1) % 2 ^ 32)) src length).bind fun b =>
      (setByte b ((length + 1) % 2 ^ 32) 0).map f) = none := by
  rw [strncpy, length_block]
  split_ifs with hfits
  · rw [Option.bind_some, setByte, if_neg, Option.map_none]
    simp only [List.length_append, List.length_take, List.length_replicate, List.length_drop,
      length_block]
    omega
  · rfl

theorem copyParam_failed (hs : s.status = .fail) (hw : w ≠ [quote]) :
    ∃ s', copyParam malloc array s w = some s' ∧ s'.status = .fail := by
  rw [copyParam]
  cases hmeasured : measureParam w with
  | none => exact (hw (measureParam_eq_none.mp hmeasured)).elim
  | some measured =>
    rw [Option.bind_some]
    cases measured with
    | none => exact ⟨_, rfl, rfl⟩
    | some p =>
      refine ⟨s, ?_, hs⟩
      dsimp only
      rw [if_pos (by rw [hs]; decide)]

theorem copyParams_failed (hs : s.status = .fail) (hws : ∀ v ∈ ws, v ≠ [quote]) :
    ∃ s', copyParams malloc array s ws = some s' ∧ s'.status = .fail := by
  induction ws generalizing s with
  | nil => exact ⟨s, rfl, hs⟩
  | cons w ws ih =>
    have hfailed : ∃ s₁, copyParam malloc array s w = some s₁ ∧ s₁.status = .fail :=
      copyParam_failed hs (hws w List.mem_cons_self)
    obtain ⟨s₁, hstep, hs₁⟩ := hfailed
    obtain ⟨s', hrest, hs'⟩ := ih hs₁ fun v hv => hws v (List.mem_cons_of_mem w hv)
    refine ⟨s', ?_, hs'⟩
    rw [copyParams, hstep, Option.bind_some, hrest]

/-- The length of a single quote is computed whatever happened before. -/
theorem copyParams_quote (hws : [quote] ∈ ws) : copyParams malloc array s ws = none := by
  induction ws generalizing s with
  | nil => cases hws
  | cons w ws ih =>
    rw [copyParams]
    rcases List.mem_cons.mp hws with rfl | hws
    · rfl
    · cases copyParam malloc array s w with
      | none => rfl
      | some s₁ => exact ih hws

theorem copyParam_oneQuote (hw : OneQuote w) :
    copyParam malloc array s w = some { s with status := .fail } := by
  rw [copyParam, measureParam_oneQuote hw, Option.bind_some]

section First

variable {n calls : ℕ}

theorem copyParam_refused (hn : 0 < n) (hw : ¬ OneQuote w) (hquote : w ≠ [quote])
    (harray : malloc calls ≠ none) (hparam : malloc (calls + 1) = none) :
    copyParam malloc ((malloc calls).map fun _ => n) ⟨.ok, [], calls + 1⟩ w =
      some ⟨.fail, [none], calls + 2⟩ := by
  obtain ⟨length, src, hmeasured⟩ := measureParam_of_not_oneQuote hw hquote
  obtain ⟨mem, hmem⟩ := Option.ne_none_iff_exists'.mp harray
  rw [copyParam, hmeasured, hmem, Option.bind_some]
  dsimp only
  rw [if_neg (not_not_intro rfl), Option.map_some, Option.bind_some]
  rw [if_neg (by rw [List.length_nil]; omega), hparam]
  rfl

/-- A param is copied through NULL, or with its terminator behind its block. -/
theorem copyParam_stuck (hw : ¬ OneQuote w)
    (hmalloc : malloc calls = none ∨ malloc (calls + 1) ≠ none) :
    copyParam malloc ((malloc calls).map fun _ => n) ⟨.ok, [], calls + 1⟩ w = none := by
  by_cases hquote : w = [quote]
  · rw [hquote]
    rfl
  obtain ⟨length, src, hmeasured⟩ := measureParam_of_not_oneQuote hw hquote
  rw [copyParam, hmeasured, Option.bind_some]
  dsimp only
  rw [if_neg (not_not_intro rfl)]
  rcases hmalloc with hnone | hsome
  · rw [hnone]
    rfl
  · obtain ⟨mem, hmem⟩ := Option.ne_none_iff_exists'.mp hsome
    apply Option.bind_eq_none_iff.mpr
    intro n _
    split_ifs
    · rfl
    · rw [hmem]
      exact strncpy_setByte mem src length _

theorem copyParams_fails (hn : 0 < n) (hquotes : ∀ v ∈ w :: ws, v ≠ [quote])
    (hw : OneQuote w ∨ malloc calls ≠ none ∧ malloc (calls + 1) = none) :
    ∃ s', copyParams malloc ((malloc calls).map fun _ => n) ⟨.ok, [], calls + 1⟩ (w :: ws) =
      some s' ∧ s'.status = .fail := by
  have hrest : ∀ v ∈ ws, v ≠ [quote] := fun v hv => hquotes v (List.mem_cons_of_mem w hv)
  rw [copyParams]
  by_cases hone : OneQuote w
  · rw [copyParam_oneQuote hone, Option.bind_some]
    exact copyParams_failed rfl hrest
  · obtain ⟨harray, hparam⟩ := hw.resolve_left hone
    rw [copyParam_refused hn hone (hquotes w List.mem_cons_self) harray hparam, Option.bind_some]
    exact copyParams_failed rfl hrest

/-- Elsewhere it does not come to an end. -/
theorem copyParams_stuck
    (h : ¬ ((∀ v ∈ w :: ws, v ≠ [quote]) ∧
      (OneQuote w ∨ malloc calls ≠ none ∧ malloc (calls + 1) = none))) :
    copyParams malloc ((malloc calls).map fun _ => n) ⟨.ok, [], calls + 1⟩ (w :: ws) = none := by
  by_cases hquotes : [quote] ∈ w :: ws
  · exact copyParams_quote hquotes
  · have hall : ∀ v ∈ w :: ws, v ≠ [quote] := by
      rintro v hv rfl
      exact hquotes hv
    have hw : ¬ OneQuote w := fun hone => h ⟨hall, .inl hone⟩
    have hmalloc : malloc calls = none ∨ malloc (calls + 1) ≠ none := by
      by_contra! hboth
      exact h ⟨hall, .inr hboth⟩
    rw [copyParams, copyParam_stuck hw hmalloc, Option.bind_none]

end First

end Stages

/-! ### The whole line -/

theorem parses_single {w cmd : List UInt8} (hcmd : Holds cmd w) :
    ({ CmdLine.zeroed with cmd := cmd } : CmdLine).Parses [w] :=
  ⟨⟨w, rfl, hcmd⟩, rfl, rfl, rfl, List.Forall₂.nil⟩

/-- What follows the first word fails or is not there, or there is no result. -/
theorem parseRest_iff (malloc : Mallocs) {w cmd : List UInt8} (ws : List (List UInt8))
    (hcmd : Holds cmd w) :
    (∃ status c, (parseOption malloc { CmdLine.zeroed with cmd := cmd } (w :: ws) ws.length).bind
        (parseParams malloc (w :: ws)) = some (status, c) ∧ (status = .ok → c.Parses (w :: ws))) ↔
      RestParsable malloc ws := by
  cases ws with
  | nil => exact iff_of_true ⟨_, _, rfl, fun _ => parses_single hcmd⟩ trivial
  | cons v ws =>
    have hpos : 0 < (v :: ws).length := Nat.succ_pos _
    by_cases hdash : v.head? = some dash
    · cases hmalloc : malloc 0 with
      | none =>
        refine iff_of_true ?_ ⟨fun _ => hmalloc, fun hne => (hne hdash).elim⟩
        have hoption : parseOption malloc { CmdLine.zeroed with cmd := cmd } (w :: v :: ws)
            (v :: ws).length = some (.fail, { CmdLine.zeroed with
              cmd := cmd, numOptions := (v.length - 1) % 2 ^ 32 }, (v :: ws).length, 1) := by
          rw [parseOption]
          dsimp only
          rw [if_pos ⟨hpos, hdash⟩, hmalloc]
          rfl
        rw [hoption, Option.bind_some]
        refine ⟨.fail, _, parseParams_failed .., ?_⟩
        intro hok
        cases hok
      | some mem =>
        refine iff_of_false ?_ ?_
        · have hstuck : parseOption malloc { CmdLine.zeroed with cmd := cmd } (w :: v :: ws)
              (v :: ws).length = none := parseOption_dash hpos hdash hmalloc
          rw [hstuck]
          rintro ⟨status, c, hnone, -⟩
          cases hnone
        · rintro ⟨hnone, -⟩
          rw [hnone hdash] at hmalloc
          cases hmalloc
    · have hoption : parseOption malloc { CmdLine.zeroed with cmd := cmd } (w :: v :: ws)
          (v :: ws).length = some (.ok, { CmdLine.zeroed with cmd := cmd }, (v :: ws).length, 0) :=
        if_neg fun h => hdash h.2
      rw [hoption, Option.bind_some, parseParams, if_pos ⟨rfl, hpos⟩]
      dsimp only
      by_cases hrest : (∀ u ∈ v :: ws, u ≠ [quote]) ∧
          (OneQuote v ∨ malloc 0 ≠ none ∧ malloc 1 = none)
      · refine iff_of_true ?_ ⟨fun h => (hdash h).elim, fun _ => hrest⟩
        obtain ⟨s', hs', hfail⟩ := copyParams_fails hpos hrest.1 hrest.2
        refine ⟨s'.status, _, congrArg (Option.map _) hs', ?_⟩
        intro hok
        rw [hfail] at hok
        cases hok
      · refine iff_of_false ?_ fun h => hrest (h.2 hdash)
        rintro ⟨status, c, hsome, -⟩
        have hstuck := copyParams_stuck (n := (v :: ws).length) hrest
        obtain ⟨s', hs', -⟩ := Option.map_eq_some_iff.mp hsome
        have hnone := hs'.symm.trans hstuck
        cases hnone

/-- For every line and whatever `malloc` answers: the parser returns with a failure or the parse
of the line and stays inside of its arrays and blocks, exactly for these lines. -/
theorem commonCmdParser_iff (malloc : Mallocs) (line : CString) :
    ParsesOrFails malloc line ↔ Parsable malloc (words space line.bytes) := by
  rw [ParsesOrFails, commonCmdParser, splitLine_eq]
  generalize words space line.bytes = ws
  cases ws with
  | nil =>
    refine iff_of_false ?_ id
    rintro ⟨status, c, hnone, -⟩
    cases hnone
  | cons w ws =>
    rw [Parsable, List.length_cons]
    by_cases hroom : ws.length + 1 < maxWords
    · have hcounter : checkedSub (w :: ws).length 1 = some ws.length := by
        rw [checkedSub, List.length_cons, if_pos (by omega), Nat.add_sub_cancel]
      rw [if_pos hroom, Option.bind_some, hcounter, Option.bind_some, List.headD_cons]
      by_cases hlong : maxCmdLength < w.length
      · rw [if_pos hlong]
        refine iff_of_true ⟨_, _, rfl, ?_⟩ ⟨hroom, .inl hlong⟩
        intro hok
        cases hok
      · rw [if_neg hlong]
        by_cases hfits : w.length < maxCmdLength
        · have hcmd : strcpy CmdLine.zeroed.cmd w =
              some (w ++ 0 :: CmdLine.zeroed.cmd.drop (w.length + 1)) := if_pos hfits
          rw [hcmd, Option.bind_some, parseRest_iff malloc ws ⟨_, rfl⟩]
          simp [hroom, hlong, hfits]
        · have hcmd : strcpy CmdLine.zeroed.cmd w = none := if_neg hfits
          rw [hcmd, Option.bind_none]
          refine iff_of_false ?_ ?_
          · rintro ⟨status, c, hnone, -⟩
            cases hnone
          · rintro ⟨-, hlt | ⟨hlt, -⟩⟩
            · exact hlong hlt
            · exact hfits hlt
    · rw [if_neg hroom, Option.bind_none]
      refine iff_of_false ?_ fun h => hroom h.1
      rintro ⟨status, c, hnone, -⟩
      cases hnone

/-- A line of a command and one word without quotes. -/
theorem not_parsesOrFails :
    ¬ ParsesOrFails (fun _ => some fun _ => 0) ⟨word ['a', 'd', 'd', ' ', 'x'], by decide⟩ := by
  rintro ⟨status, c, h, -⟩
  have hnone : commonCmdParser (fun _ => some fun _ => 0)
      ⟨word ['a', 'd', 'd', ' ', 'x'], by decide⟩ = none := by decide
  rw [hnone] at h
  cases h

end MorningProjects.Common
