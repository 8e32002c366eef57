import At32.Drivers.Exti
import At32.Drivers.Gpio
import At32.Drivers.Uart
import At32.Lib.DownCounter
import Mathlib.Algebra.Order.Field.Rat
import Mathlib.Data.List.Basic
import Mathlib.Data.List.GetD
import Mathlib.Data.List.Induction
import Mathlib.Tactic.Linarith
import Mathlib.Tactic.Ring

/-! The automatic baud rate: what is measured between the edges of a byte, which rate is chosen
for it, when that is none, and when it depends on the time of the first edge.
-/

namespace At32.AutoBaud

open DownCounter
open Exti (ExtiMode TriggerMode getExtiInter cleanExtiInter getExtiInter_eq)
open Gpio (HwGpio GpioMode)
open Uart (HW_USART1)

abbrev SIZE : UInt8 := 8
abbrev BYTE_Mask : Rat := 9
abbrev RELOAD_VALUE : Nat := 1920000
abbrev SysTick_VAL_CURRENT_Msk : UInt32 := 0xffffff

abbrev BAUD_9600 : UInt32 := 9600
abbrev BAUD_115200 : UInt32 := 115200
abbrev BAUD_256000 : UInt32 := 256000
abbrev BAUD_460800 : UInt32 := 460800

/-- The calls of the interrupt. -/
inductive Call
  | uartInit (number baudrate : UInt32)
  | gpioInit (port : HwGpio) (pin : Nat) (mode : GpioMode)
  | extiInit (line : Nat) (mode : ExtiMode) (trigger : TriggerMode) (newStatus : Bool)
  | print (autoBaud : UInt32)
  deriving DecidableEq, Repr

/-- The static variables of the interrupt, the pending register, and the calls so far. The
doubles hold whole numbers below 2 ^ 27 and their quotients by 9, which compare with whole
numbers as the exact ones do.
-/
structure State where
  time : Rat
  difVal : Rat
  value : Rat
  tatol : Nat → Rat
  temp : Nat → Rat
  i : UInt8
  autoBaud : UInt32
  pnd : BitVec 32
  calls : List Call

/-- One pass of the loop over the differences. -/
def difference (s : State) (m : Nat) : State :=
  let difVal := s.tatol m - s.tatol (m + 1)
  let s := { s with difVal }
  if difVal > 0 then { s with temp := Function.update s.temp m difVal } else s

/-- What is done with a whole group of edges. -/
def measure (s : State) : State :=
  let s := (List.range (SIZE.toNat - 1)).foldl difference s
  let value :=
    (s.temp 0 + s.temp 1 + s.temp 2 + s.temp 3 + s.temp 4 + s.temp 5 + s.temp 6) / BYTE_Mask
  let autoBaud :=
    if value ≥ 91 ∧ value ≤ 95 then BAUD_256000
    else if value ≥ 52 ∧ value ≤ 55 then BAUD_460800
    else if value ≥ 205 ∧ value ≤ 210 then BAUD_115200
    else if value ≥ 2480 ∧ value ≤ 2515 then BAUD_9600
    else s.autoBaud
  { s with
    value
    autoBaud
    i := 0
    calls :=
      s.calls
      ++ [.uartInit HW_USART1 autoBaud, .gpioInit .a 9 .afPp,
        .extiInit 10 .interrupt .faillingAndRising false, .print autoBaud] }

/-- EXTI15_10_IRQHandler, for what SysTick shows. -/
def exti1510IrqHandler (val : UInt32) (s : State) : State :=
  let s :=
    if getExtiInter 10 s.pnd then
      let time : Rat := (val &&& SysTick_VAL_CURRENT_Msk).toNat
      { s with
        time
        pnd := cleanExtiInter 10 s.pnd
        tatol := Function.update s.tatol s.i.toNat time
        i := s.i + 1 }
    else
      s
  if s.i = SIZE then measure s else s

/-- An interrupt with what is pending then and what SysTick shows. -/
structure Edge where
  pnd : BitVec 32
  val : UInt32
  deriving DecidableEq, Repr

def State.step (s : State) (edge : Edge) : State :=
  exti1510IrqHandler edge.val { s with pnd := edge.pnd }

def State.start : State :=
  {
    time := 0
    difVal := 0
    value := 0
    tatol := fun _ => 0
    temp := fun _ => 0
    i := 0
    autoBaud := 0
    pnd := 0
    calls := []
  }

def run (edges : List Edge) : State := edges.foldl State.step .start

-----------------------------------------------------------------------------------------
-- Measurements
-----------------------------------------------------------------------------------------

/-- The rate for a measured value. -/
def classify (value : Rat) : Option UInt32 :=
  if value ≥ 91 ∧ value ≤ 95 then some BAUD_256000
  else if value ≥ 52 ∧ value ≤ 55 then some BAUD_460800
  else if value ≥ 205 ∧ value ≤ 210 then some BAUD_115200
  else if value ≥ 2480 ∧ value ≤ 2515 then some BAUD_9600
  else none

def Edge.timestamp (edge : Edge) : Rat := (edge.val &&& SysTick_VAL_CURRENT_Msk).toNat

/-- The timestamps of some edges, by place. -/
def times (edges : List Edge) (m : Nat) : Rat := (edges.map Edge.timestamp).getD m 0

/-- The differences that a group of timestamps leaves: those that are positive, and the old ones.
-/
def kept (old times : Nat → Rat) (m : Nat) : Rat :=
  if times m - times (m + 1) > 0 then times m - times (m + 1) else old m

def total (f : Nat → Rat) : Rat := f 0 + f 1 + f 2 + f 3 + f 4 + f 5 + f 6

/-- The loop over the differences; by induction on its passes. -/
theorem differences_eq (s : State) (n : Nat)
    : ∃ difVal,
        (List.range n).foldl difference s
          = { s with
              difVal
              temp := fun m => if m < n then kept s.temp s.tatol m else s.temp m } := by
  induction n with
  | zero => exact ⟨s.difVal, rfl⟩
  | succ n ih =>
      obtain ⟨difVal, before⟩ := ih
      refine ⟨s.tatol n - s.tatol (n + 1), ?_⟩
      have temps {f g : Nat → Rat} (here : f n = g n) (others : ∀ m ≠ n, f m = g m) : f = g := by
        funext m
        by_cases same : m = n
        · rw [same, here]
        · exact others m same
      rw [List.range_succ, List.foldl_append, before, List.foldl_cons, List.foldl_nil, difference]
      by_cases falls : s.tatol n - s.tatol (n + 1) > 0
      · simp only [if_pos falls]
        congr 1
        refine temps ?_ fun m other => ?_
        · rw [Function.update_self, if_pos (Nat.lt_succ_self n), kept, if_pos falls]
        · rw [Function.update_of_ne other]
          simp only [Nat.lt_succ_iff_lt_or_eq, or_iff_left other]
      · simp only [if_neg falls]
        congr 1
        refine temps ?_ fun m other => ?_
        · rw [if_neg (Nat.lt_irrefl n), if_pos (Nat.lt_succ_self n), kept, if_neg falls]
        · simp only [Nat.lt_succ_iff_lt_or_eq, or_iff_left other]

/-- A measured state: the value is that of the group, and UART_Init is called with the rate for
it, or with the old one.
-/
structure Measured (s t : State) : Prop where
  value : t.value = total (kept s.temp s.tatol) / BYTE_Mask
  autoBaud : t.autoBaud = (classify t.value).getD s.autoBaud
  i : t.i = 0
  calls
    : t.calls
      = s.calls
        ++ [.uartInit HW_USART1 t.autoBaud, .gpioInit .a 9 .afPp,
          .extiInit 10 .interrupt .faillingAndRising false, .print t.autoBaud]

/-- The chain of tests that sets the rate is that of its classification. -/
theorem classify_getD (value : Rat) (old : UInt32)
    : (if value ≥ 91 ∧ value ≤ 95 then BAUD_256000
        else if value ≥ 52 ∧ value ≤ 55 then BAUD_460800
        else if value ≥ 205 ∧ value ≤ 210 then BAUD_115200
        else if value ≥ 2480 ∧ value ≤ 2515 then BAUD_9600
        else old)
      = (classify value).getD old := by
  unfold classify
  rw [apply_ite (Option.getD · old), apply_ite (Option.getD · old), apply_ite (Option.getD · old),
    apply_ite (Option.getD · old)]
  rfl

theorem measure_measured (s : State) : Measured s (measure s) := by
  obtain ⟨difVal, differences⟩ := differences_eq s (SIZE.toNat - 1)
  unfold measure
  rw [differences]
  exact
    {
      value := rfl
      autoBaud := classify_getD _ _
      i := rfl
      calls := rfl
    }

/-- An edge that is stored. -/
def State.stored (s : State) (edge : Edge) : State :=
  { s with
    time := edge.timestamp
    pnd := cleanExtiInter 10 edge.pnd
    tatol := Function.update s.tatol s.i.toNat edge.timestamp
    i := s.i + 1 }

theorem State.step_eq (s : State) (edge : Edge)
    : s.step edge = if s.i + 1 = SIZE then measure (s.stored edge) else s.stored edge := by
  have pending : getExtiInter 10 edge.pnd = true := getExtiInter_eq (by decide) _
  simp only [State.step, exti1510IrqHandler, pending, if_true]
  rfl

theorem times_append {front rest : List Edge} {m n : Nat} (before : m < n)
    (length : front.length = n)
    : times (front ++ rest) m = times front m := by
  unfold times
  rw [List.map_append, List.getD_append _ _ _ _ (by rw [List.length_map, length]; exact before)]

theorem times_last {front : List Edge} {edge : Edge} {n : Nat} (length : front.length = n)
    : times (front ++ [edge]) n = edge.timestamp := by
  unfold times
  rw [List.map_append, List.getD_append_right _ _ _ _ (by rw [List.length_map, length]),
    List.length_map, length, Nat.sub_self]
  rfl

/-- Edges that do not make a group full are only stored; by induction on the edges. -/
theorem foldl_stored {s : State} {edges : List Edge}
    (room : s.i.toNat + edges.length < SIZE.toNat)
    : ∃ time pnd tatol,
        edges.foldl State.step s
          = { s with time, pnd, tatol, i := s.i + UInt8.ofNat edges.length }
        ∧ (∀ m < s.i.toNat, tatol m = s.tatol m)
        ∧ ∀ m < edges.length, tatol (s.i.toNat + m) = times edges m := by
  induction edges generalizing s with
  | nil => exact ⟨s.time, s.pnd, s.tatol, by simp, fun _ _ => rfl, fun _ none => by cases none⟩
  | cons edge rest ih =>
      have size : SIZE.toNat = 8 := rfl
      rw [List.length_cons] at room
      have next : (s.i + 1).toNat = s.i.toNat + 1 := by
        rw [UInt8.toNat_add]
        change (s.i.toNat + 1) % 256 = _
        omega
      have notFull : s.i + 1 ≠ SIZE := fun full => by
        rw [← UInt8.toNat_inj, next] at full
        omega
      obtain ⟨time, pnd, tatol, folded, front, back⟩ :=
        @ih (s.stored edge) (by change (s.i + 1).toNat + _ < _; omega)
      refine ⟨time, pnd, tatol, ?_, fun m inside => ?_, fun m inside => ?_⟩
      · rw [List.foldl_cons, s.step_eq, if_neg notFull, folded]
        have count : s.i + 1 + UInt8.ofNat rest.length = s.i + UInt8.ofNat (rest.length + 1) := by
          rw [UInt8.ofNat_add, UInt8.add_assoc, UInt8.add_comm 1]
          rfl
        simp only [State.stored, List.length_cons, count]
      · rw [front m (by change m < (s.i + 1).toNat; omega)]
        exact Function.update_of_ne (Nat.ne_of_lt inside) _ _
      · cases m with
        | zero =>
            rw [Nat.add_zero, front _ (by change _ < (s.i + 1).toNat; omega)]
            exact Function.update_self _ _ _
        | succ m =>
            have place : s.i.toNat + (m + 1) = (s.i + 1).toNat + m := by omega
            rw [place]
            exact back m (Nat.lt_of_succ_lt_succ inside)

theorem kept_congr {old f g : Nat → Rat} {m : Nat} (here : f m = g m)
    (next : f (m + 1) = g (m + 1))
    : kept old f m = kept old g m := by
  rw [kept, kept, here, next]

theorem total_congr {f g : Nat → Rat} (same : ∀ m < 7, f m = g m) : total f = total g := by
  unfold total
  rw [same 0 (by decide), same 1 (by decide), same 2 (by decide), same 3 (by decide),
    same 4 (by decide), same 5 (by decide), same 6 (by decide)]

/-- A state behind a group of edges. -/
structure Grouped (edges : List Edge) (s t : State) : Prop where
  value : t.value = total (kept s.temp (times edges)) / BYTE_Mask
  autoBaud : t.autoBaud = (classify t.value).getD s.autoBaud
  i : t.i = 0
  calls
    : t.calls
      = s.calls
        ++ [.uartInit HW_USART1 t.autoBaud, .gpioInit .a 9 .afPp,
          .extiInit 10 .interrupt .faillingAndRising false, .print t.autoBaud]

/-- A whole group is measured by its own timestamps. -/
theorem foldl_grouped {s : State} (empty : s.i = 0) {edges : List Edge} (full : edges.length = 8)
    : Grouped edges s (edges.foldl State.step s) := by
  obtain ⟨front, edge, rfl⟩ := (List.eq_nil_or_concat' edges).resolve_left fun none => by
    rw [none] at full
    cases full
  have seven : front.length = 7 := by
    rw [List.length_append, List.length_singleton] at full
    omega
  obtain ⟨time, pnd, tatol, folded, -, stored⟩ :=
    @foldl_stored s front (by rw [empty, seven]; decide)
  rw [empty] at folded stored
  simp only [UInt8.toNat_zero, Nat.zero_add, seven] at stored
  have measured := measure_measured
    (State.stored { s with time, pnd, tatol, i := 0 + UInt8.ofNat front.length } edge)
  have place : (0 + UInt8.ofNat front.length).toNat = 7 := by
    rw [seven]
    rfl
  have isFull : 0 + UInt8.ofNat front.length + 1 = SIZE := by
    rw [seven]
    rfl
  have same : ∀ m ≤ 7, Function.update tatol 7 edge.timestamp m = times (front ++ [edge]) m := by
    intro m inside
    rcases Nat.lt_or_eq_of_le inside with before | rfl
    · rw [Function.update_of_ne (Nat.ne_of_lt before), stored m before,
        times_append before seven]
    · rw [Function.update_self, times_last seven]
  rw [List.foldl_append, folded, List.foldl_cons, List.foldl_nil, State.step_eq, if_pos isFull]
  refine
    {
      value := measured.value.trans ?_
      autoBaud := measured.autoBaud
      i := measured.i
      calls := measured.calls
    }
  simp only [State.stored, place]
  refine congrArg (· / BYTE_Mask) (total_congr fun m inside => kept_congr ?_ ?_)
  · exact same m (Nat.le_of_lt inside)
  · exact same (m + 1) inside

-----------------------------------------------------------------------------------------
-- Rates that can be divided by
-----------------------------------------------------------------------------------------

/-- A rate other than zero, by which UART_SetBaudRate can divide. -/
def Usable (baud : UInt32) : Prop := baud ≠ 0 ∧ 4 * baud ≠ 0

instance (baud : UInt32) : Decidable (Usable baud) := inferInstanceAs (Decidable (_ ∧ _))

theorem classify_usable {value : Rat} {baud : UInt32} (classified : classify value = some baud)
    : Usable baud := by
  unfold classify at classified
  split_ifs at classified <;> cases classified <;> decide

/-- The rate behind a measurement can be used where the value is classified or the rate before
could be.
-/
theorem getD_usable_iff (value : Rat) (old : UInt32)
    : Usable ((classify value).getD old) ↔ (classify value).isSome ∨ Usable old := by
  cases classified : classify value with
  | none => simp
  | some baud => exact iff_of_true (classify_usable classified) (.inl rfl)

/-- All calls of UART_Init are for usable rates. -/
def AllUsable (calls : List Call) : Prop :=
  ∀ number baud, Call.uartInit number baud ∈ calls → Usable baud

/-- The calls behind a measurement add one of UART_Init. -/
theorem allUsable_append_iff (calls : List Call) (baud : UInt32)
    : AllUsable
          (calls
            ++ [.uartInit HW_USART1 baud, .gpioInit .a 9 .afPp,
              .extiInit 10 .interrupt .faillingAndRising false, .print baud])
      ↔ AllUsable calls ∧ Usable baud := by
  unfold AllUsable
  constructor
  · intro all
    exact ⟨fun number other member => all number other (List.mem_append_left _ member),
      all HW_USART1 baud (List.mem_append_right _ (.head _))⟩
  · intro ⟨all, usable⟩ number other member
    rcases List.mem_append.mp member with before | here
    · exact all number other before
    · simp only [List.mem_cons, Call.uartInit.injEq, reduceCtorEq, or_false, List.not_mem_nil]
        at here
      rw [here.2]
      exact usable

/-- An edge keeps a usable rate, and with it all rates of the calls; and it takes no call back. -/
theorem State.step_usable (s : State) (edge : Edge)
    : (Usable s.autoBaud → AllUsable s.calls →
        Usable (s.step edge).autoBaud ∧ AllUsable (s.step edge).calls)
      ∧ (AllUsable (s.step edge).calls → AllUsable s.calls) := by
  rw [s.step_eq edge]
  split
  · have measured := measure_measured (s.stored edge)
    rw [measured.calls, allUsable_append_iff]
    refine ⟨fun usable all => ?_, fun both => both.1⟩
    have next : Usable (measure (s.stored edge)).autoBaud := by
      rw [measured.autoBaud, getD_usable_iff]
      exact .inr usable
    exact ⟨next, all, next⟩
  · exact ⟨fun usable all => ⟨usable, all⟩, id⟩

/-- So do any edges; by induction on the edges. -/
theorem foldl_usable (s : State) (edges : List Edge)
    : (Usable s.autoBaud → AllUsable s.calls → AllUsable (edges.foldl State.step s).calls)
      ∧ (AllUsable (edges.foldl State.step s).calls → AllUsable s.calls) := by
  induction edges generalizing s with
  | nil => exact ⟨fun _ all => all, id⟩
  | cons edge rest ih =>
      have ⟨keeps, reflects⟩ := s.step_usable edge
      have ⟨restKeeps, restReflects⟩ := ih (s.step edge)
      refine ⟨fun usable all => ?_, fun all => reflects (restReflects all)⟩
      have ⟨next, nextAll⟩ := keeps usable all
      exact restKeeps next nextAll

/-- UART_Init is never called with a rate that UART_SetBaudRate cannot divide by exactly when
there are fewer than eight edges, or the first eight are classified.
-/
theorem run_allUsable_iff (edges : List Edge)
    : AllUsable (run edges).calls
      ↔ edges.length < 8
        ∨ (classify (total (kept (fun _ => 0) (times edges)) / BYTE_Mask)).isSome := by
  rcases Nat.lt_or_ge edges.length 8 with few | enough
  · obtain ⟨time, pnd, tatol, folded, -, -⟩ := @foldl_stored .start edges (by
      change 0 + edges.length < 8
      omega)
    have calls : (run edges).calls = [] := by
      rw [run, folded]
      rfl
    rw [calls]
    exact iff_of_true (fun _ _ none => absurd none List.not_mem_nil) (.inl few)
  · rw [or_iff_right (Nat.not_lt_of_le enough)]
    have full : (edges.take 8).length = 8 := List.length_take_of_le enough
    have grouped := @foldl_grouped .start rfl _ full
    have first : total (kept (fun _ => 0) (times edges))
        = total (kept (fun _ => 0) (times (edges.take 8))) := by
      refine total_congr fun m inside => ?_
      conv => lhs; rw [← List.take_append_drop 8 edges]
      exact kept_congr (times_append (by omega) full) (times_append (by omega) full)
    have whole : run edges
        = (edges.drop 8).foldl State.step ((edges.take 8).foldl State.step .start) := by
      rw [← List.foldl_append, List.take_append_drop]
      rfl
    have none : ¬Usable State.start.autoBaud := by decide
    have calls : AllUsable State.start.calls := fun _ _ none => absurd none List.not_mem_nil
    have rate : Usable ((edges.take 8).foldl State.step .start).autoBaud
        ↔ (classify (total (kept (fun _ => 0) (times edges)) / BYTE_Mask)).isSome := by
      rw [grouped.autoBaud, getD_usable_iff, or_iff_left none, grouped.value, first]
      rfl
    have after := grouped.calls ▸ allUsable_append_iff _ _
    rw [whole, ← rate]
    have ⟨keeps, reflects⟩ := foldl_usable ((edges.take 8).foldl State.step .start) (edges.drop 8)
    constructor
    · exact fun all => (after.mp (reflects all)).2
    · exact fun usable => keeps usable (after.mpr ⟨calls, usable⟩)

/-- Eight edges 100 ticks apart. -/
def hundredApart : List Edge :=
  [1000, 900, 800, 700, 600, 500, 400, 300].map fun val => { pnd := 0x800, val }

/-- They are not classified, and UART_Init is called with rate 0. -/
theorem run_hundredApart : ¬AllUsable (run hundredApart).calls := by
  intro all
  have zero : Call.uartInit HW_USART1 0 ∈ (run hundredApart).calls := by decide +kernel
  exact absurd (all HW_USART1 0 zero) (by decide)

-----------------------------------------------------------------------------------------
-- The time of the first edge
-----------------------------------------------------------------------------------------

/-- A group of edges with the ticks (spacings) between them, the first one when SysTick shows
(start).
-/
def group (start : Nat) (spacings : Nat → Nat) (pnd : Nat → BitVec 32) : List Edge :=
  (List.range SIZE.toNat).map fun k =>
    { pnd := pnd k, val := UInt32.ofNat (reading RELOAD_VALUE start (elapsed spacings k)) }

/-- An interval whose difference is not positive: no ticks, or SysTick wraps in it. -/
def Dropped (start : Nat) (spacings : Nat → Nat) (m : Nat) : Prop :=
  spacings m = 0 ∨ reading RELOAD_VALUE start (elapsed spacings m) < spacings m

instance (start : Nat) (spacings : Nat → Nat) (m : Nat) : Decidable (Dropped start spacings m) :=
  inferInstanceAs (Decidable (_ ∨ _))

/-- By how much the old differences that stand for the dropped ones are too large. -/
def missed (old : Nat → Rat) (start : Nat) (spacings : Nat → Nat) : Rat :=
  total fun m => if Dropped start spacings m then old m - spacings m else 0

theorem group_length (start : Nat) (spacings : Nat → Nat) (pnd : Nat → BitVec 32)
    : (group start spacings pnd).length = 8 := by
  rw [group, List.length_map, List.length_range]
  rfl

theorem times_group {start : Nat} (inside : start ≤ RELOAD_VALUE) (spacings : Nat → Nat)
    (pnd : Nat → BitVec 32) {m : Nat} (within : m < 8)
    : times (group start spacings pnd) m = reading RELOAD_VALUE start (elapsed spacings m) := by
  have shown := reading_le inside (elapsed spacings m)
  have reload : RELOAD_VALUE = 1920000 := rfl
  have here : m < (List.range SIZE.toNat).length := by
    rw [List.length_range]
    exact within
  unfold times group
  rw [List.map_map, List.getD_eq_getElem _ _ (by rw [List.length_map]; exact here),
    List.getElem_map, List.getElem_range]
  have masked : (UInt32.ofNat (reading RELOAD_VALUE start (elapsed spacings m))
        &&& SysTick_VAL_CURRENT_Msk).toNat
      = reading RELOAD_VALUE start (elapsed spacings m) := by
    rw [UInt32.toNat_and]
    refine (Nat.and_two_pow_sub_one_eq_mod _ 24).trans ?_
    have word : (UInt32.ofNat (reading RELOAD_VALUE start (elapsed spacings m))).toNat
        = reading RELOAD_VALUE start (elapsed spacings m) :=
      UInt32.toNat_ofNat_of_lt' (Nat.lt_of_le_of_lt shown (by decide))
    rw [word]
    exact Nat.mod_eq_of_lt (Nat.lt_of_le_of_lt shown (by decide))
  exact congrArg (Nat.cast : Nat → Rat) masked

/-- Within a period the counter shows less after some ticks exactly when there are any and it
does not wrap, and then it shows less by them.
-/
theorem reading_falls_iff {shows ticks : Nat} (short : ticks ≤ RELOAD_VALUE)
    : (shows : Rat) - reading RELOAD_VALUE shows ticks > 0 ↔ ¬(ticks = 0 ∨ shows < ticks) := by
  rw [gt_iff_lt, sub_pos, Nat.cast_lt]
  rcases Nat.lt_or_ge shows ticks with wraps | down
  · rw [reading_of_lt wraps (by omega)]
    omega
  · rw [reading_of_le down]
    omega

theorem sub_reading {shows ticks : Nat} (down : ticks ≤ shows)
    : (shows : Rat) - reading RELOAD_VALUE shows ticks = ticks := by
  rw [reading_of_le down, Nat.cast_sub down]
  ring

/-- The difference of an interval is its ticks, unless it is dropped. -/
theorem kept_group {start : Nat} (inside : start ≤ RELOAD_VALUE) {spacings : Nat → Nat}
    (short : elapsed spacings 7 ≤ RELOAD_VALUE) (pnd : Nat → BitVec 32) (old : Nat → Rat)
    {m : Nat} (within : m < 7)
    : kept old (times (group start spacings pnd)) m
      = spacings m + if Dropped start spacings m then old m - spacings m else 0 := by
  have notLong : spacings m ≤ RELOAD_VALUE :=
    Nat.le_trans (Nat.le_add_left _ _) (Nat.le_trans (elapsed_le spacings within) short)
  have next : reading RELOAD_VALUE start (elapsed spacings (m + 1))
      = reading RELOAD_VALUE (reading RELOAD_VALUE start (elapsed spacings m)) (spacings m) :=
    (reading_add _ _ _ _).symm
  rw [kept, times_group inside _ _ (by omega), times_group inside _ _ (by omega), next]
  by_cases dropped : Dropped start spacings m
  · have notFalls := mt (reading_falls_iff notLong).mp (not_not_intro dropped)
    rw [if_neg notFalls, if_pos dropped]
    ring
  · have falls := (reading_falls_iff notLong).mpr dropped
    have down := Nat.le_of_not_lt fun wraps => dropped (.inr wraps)
    rw [if_pos falls, if_neg dropped, sub_reading down]
    ring

theorem State.step_i (s : State) (edge : Edge) (inside : s.i.toNat < 8)
    : (s.step edge).i.toNat = (s.i.toNat + 1) % 8 := by
  have next : (s.i + 1).toNat = s.i.toNat + 1 := by
    rw [UInt8.toNat_add]
    change (s.i.toNat + 1) % 256 = _
    omega
  have full : s.i + 1 = SIZE ↔ s.i.toNat + 1 = 8 := by
    rw [← UInt8.toNat_inj, next]
    rfl
  rw [s.step_eq edge]
  split
  · rename_i isFull
    rw [(measure_measured _).i, full.mp isFull]
    rfl
  · rename_i notFull
    rw [full] at notFull
    exact next.trans (Nat.mod_eq_of_lt (by omega)).symm

/-- The index counts the edges of the group that is not full. -/
theorem run_i (edges : List Edge) : (run edges).i.toNat = edges.length % 8 := by
  induction edges using List.reverseRecOn with
  | nil => rfl
  | append_singleton edges edge ih =>
      rw [run, List.foldl_append, List.foldl_cons, List.foldl_nil]
      change ((run edges).step edge).i.toNat = _
      rw [State.step_i _ _ (by rw [ih]; exact Nat.mod_lt _ (by decide)), ih, List.length_append,
        Nat.mod_add_mod]
      rfl

/-- A group is measured by the ticks between its edges and what is missed of them. -/
theorem run_group_value {history : List Edge} (whole : history.length % 8 = 0) {start : Nat}
    (inside : start ≤ RELOAD_VALUE) {spacings : Nat → Nat}
    (short : elapsed spacings 7 ≤ RELOAD_VALUE) (pnd : Nat → BitVec 32)
    : (run (history ++ group start spacings pnd)).value
      = ((total fun m => spacings m) + missed (run history).temp start spacings) / BYTE_Mask := by
  have empty : (run history).i = 0 := by
    rw [← UInt8.toNat_inj, run_i, whole]
    rfl
  have grouped := foldl_grouped empty (group_length start spacings pnd)
  rw [run, List.foldl_append]
  refine grouped.value.trans (congrArg (· / BYTE_Mask) ?_)
  rw [total_congr fun m within => kept_group inside short pnd (run history).temp within, missed]
  unfold total
  ring

/-- Two groups with the same ticks between their edges are measured and classified alike exactly
when what is missed for the dropped intervals is the same, whatever was measured before and
whenever the first edges come.
-/
theorem group_alike_iff (history other : List Edge) (whole : history.length % 8 = 0)
    (otherWhole : other.length % 8 = 0) (start otherStart : Nat) (inside : start ≤ RELOAD_VALUE)
    (otherInside : otherStart ≤ RELOAD_VALUE) (spacings : Nat → Nat)
    (short : elapsed spacings 7 ≤ RELOAD_VALUE) (pnd otherPnd : Nat → BitVec 32)
    : (let value := (run (history ++ group start spacings pnd)).value
        let otherValue := (run (other ++ group otherStart spacings otherPnd)).value
        value = otherValue ∧ classify value = classify otherValue)
      ↔ missed (run history).temp start spacings
        = missed (run other).temp otherStart spacings := by
  have nine : BYTE_Mask ≠ 0 := by decide
  simp only [run_group_value whole inside short pnd,
    run_group_value otherWhole otherInside short otherPnd, div_left_inj' nine, add_right_inj]
  exact ⟨fun alike => alike.1, fun same => ⟨same, by rw [same]⟩⟩

/-- Two groups of edges 268 ticks apart with no wrap. -/
theorem group_alike_268
    : (let value := (run ([] ++ group 5000 (fun _ => 268) fun _ => 0x800)).value
        let otherValue := (run ([] ++ group 9000 (fun _ => 268) fun _ => 0x800)).value
        value = otherValue ∧ classify value = classify otherValue)
      ↔ missed (run []).temp 5000 (fun _ => 268) = missed (run []).temp 9000 fun _ => 268 :=
  group_alike_iff [] [] rfl rfl 5000 9000 (by decide) (by decide) (fun _ => 268) (by decide) _ _

/-- Where the counter wraps between the first edges, the rate is not found. -/
theorem group_lost_wrap
    : classify (run ([] ++ group 5000 (fun _ => 268) fun _ => 0x800)).value = some BAUD_115200
      ∧ classify (run ([] ++ group 100 (fun _ => 268) fun _ => 0x800)).value = none := by
  decide +kernel

end At32.AutoBaud
