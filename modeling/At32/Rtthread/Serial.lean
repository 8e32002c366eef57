import At32.Drivers.Uart
import At32.Lib.BitMask

/-! The serial devices of the device layer: what at32_configure leaves of a request. -/

namespace At32.Serial

open BitMask Uart

/-- The entries of usart_config. -/
inductive UsartConfig
  | uart1
  | uart2
  | uart3
  deriving DecidableEq, Repr

/-- The number that at32_configure finds for the name of an entry. -/
def UsartConfig.number : UsartConfig → UInt32
  | .uart1 => HW_USART1
  | .uart2 => HW_USART2
  | .uart3 => HW_USART3

/-- The instance of that number. -/
def UsartConfig.inst : UsartConfig → Instance
  | .uart1 => .usart1
  | .uart2 => .usart2
  | .uart3 => .usart3

theorem UsartConfig.uartList_number (usart : UsartConfig)
    : uartList usart.number = some usart.inst := by
  cases usart <;> rfl

abbrev BAUD_RATE_115200 : UInt32 := 115200
abbrev PARITY_NONE : UInt32 := 0
abbrev PARITY_ODD : UInt32 := 1
abbrev PARITY_EVEN : UInt32 := 2

/-- The fields of serial_configure that are read. -/
structure SerialConfigure where
  baudRate : UInt32
  dataBits : UInt32
  stopBits : UInt32
  parity : UInt32
  deriving DecidableEq, Repr

/-- at32_configure, which returns RT_EOK. -/
def at32Configure (usart : UsartConfig) (cfg : SerialConfigure) (s : Board) : Option Board := do
  let s := setWorldlength usart.inst cfg.dataBits s
  let s := setStopBits usart.inst cfg.stopBits s
  let s := setParityBits usart.inst cfg.parity s
  let (_, s) ← uartInit usart.number cfg.baudRate s
  return usartCmd usart.inst true s

-----------------------------------------------------------------------------------------
-- Requests
-----------------------------------------------------------------------------------------

/-- A request for 8 or 9 data bits, one or two stop bits, and no, odd or even parity. -/
structure SerialConfigure.Supported (cfg : SerialConfigure) : Prop where
  dataBits : cfg.dataBits = DATA_BITS_8 ∨ cfg.dataBits = DATA_BITS_9
  stopBits : cfg.stopBits = STOP_BITS_1 ∨ cfg.stopBits = STOP_BITS_2
  parity : cfg.parity = PARITY_NONE ∨ cfg.parity = PARITY_ODD ∨ cfg.parity = PARITY_EVEN

/-- The word length and the parity of a request, with the codes that the driver has for them. -/
def SerialConfigure.ctrl1 (cfg : SerialConfigure) : UInt16 :=
  (if cfg.dataBits = DATA_BITS_9 then USART_CTRL1_LEN else 0)
  ||| (if cfg.parity = PARITY_ODD then USART_CTRL1_PCEN
      else if cfg.parity = PARITY_EVEN then USART_CTRL1_PSEL ||| USART_CTRL1_PCEN
      else 0)

def SerialConfigure.ctrl2 (cfg : SerialConfigure) : UInt16 :=
  if cfg.stopBits = STOP_BITS_2 then USART_CTRL2_STOP_B1 else 0

abbrev USART_CTRL2_STOP : UInt16 := 0x3000

/-- The registers encode a request, and the instance is enabled. -/
structure Encodes (cfg : SerialConfigure) (usart : Usart) : Prop where
  ctrl1 : usart.ctrl1 &&& (USART_CTRL1_LEN ||| USART_CTRL1_PCEN ||| USART_CTRL1_PSEL) = cfg.ctrl1
  stop : usart.ctrl2 &&& USART_CTRL2_STOP = cfg.ctrl2
  enabled : usart.ctrl1 &&& USART_CTRL1_UEN = USART_CTRL1_UEN

/-- Eight data bits, no parity and one stop bit. -/
def SerialConfigure.Plain (cfg : SerialConfigure) : Prop :=
  cfg.dataBits = DATA_BITS_8 ∧ cfg.stopBits = STOP_BITS_1 ∧ cfg.parity = PARITY_NONE

/-- Only that has no bit of the fields. -/
theorem plain_iff {cfg : SerialConfigure} (supported : cfg.Supported)
    : cfg.ctrl1 = 0 ∧ cfg.ctrl2 = 0 ↔ cfg.Plain := by
  obtain ⟨data, stop, parity⟩ := supported
  unfold SerialConfigure.ctrl1 SerialConfigure.ctrl2 SerialConfigure.Plain
  rcases data with data | data <;> rcases stop with stop | stop <;>
    rcases parity with parity | parity | parity <;>
    rw [data, stop, parity] <;>
    decide

-----------------------------------------------------------------------------------------
-- What is left
-----------------------------------------------------------------------------------------

theorem uartSetBaudRate_ctrl {inst : Instance} {baud : UInt32} {s after : Board}
    (set : uartSetBaudRate inst baud s = some after)
    : (after.usart inst).ctrl1 = (s.usart inst).ctrl1
      ∧ (after.usart inst).ctrl2 = (s.usart inst).ctrl2 := by
  simp only [uartSetBaudRate, Option.bind_eq_bind, Option.bind_eq_some_iff, Option.pure_def,
    Option.some.injEq] at set
  obtain ⟨_, _, _, _, rfl⟩ := set
  rw [Board.modify_usart]
  exact ⟨rfl, rfl⟩

/-- What a call that returns leaves in the fields: UART_Init clears what was joined before. -/
theorem at32Configure_fields {usart : UsartConfig} {cfg : SerialConfigure} {s after : Board}
    (configured : at32Configure usart cfg s = some after)
    : (after.usart usart.inst).ctrl1
          &&& (USART_CTRL1_LEN ||| USART_CTRL1_PCEN ||| USART_CTRL1_PSEL)
        = 0
      ∧ (after.usart usart.inst).ctrl2 &&& USART_CTRL2_STOP = 0
      ∧ (after.usart usart.inst).ctrl1 &&& USART_CTRL1_UEN = USART_CTRL1_UEN := by
  simp only [at32Configure, uartInit, usart.uartList_number, Option.bind_eq_bind,
    Option.pure_def, Option.bind_eq_some_iff, Option.some.injEq,
    Prod.exists, Prod.mk.injEq] at configured
  obtain ⟨_, initialised, ⟨baud, set, _, rfl⟩, rfl⟩ := configured
  have ⟨ctrl1, ctrl2⟩ := uartSetBaudRate_ctrl set
  rw [Board.modify_usart] at ctrl1 ctrl2
  rw [usartCmd, Board.modify_usart, if_pos rfl, ctrl1, ctrl2]
  refine ⟨?_, ?_, joined_field _ _⟩
  · rw [UInt16.or_assoc]
    exact masked_field _ (by decide) (by decide)
  · rw [← UInt16.or_zero (a := _ &&& CTRL2_STOP_Mask)]
    exact masked_field _ (by decide) (by decide)

/-- A request takes effect exactly when it is for eight data bits, no parity and one stop bit,
whatever the registers held, and so does a second one.
-/
theorem at32Configure_encodes_iff (usart : UsartConfig) (first second : SerialConfigure)
    (supported : first.Supported) (secondSupported : second.Supported) (s middle last : Board)
    (configured : at32Configure usart first s = some middle)
    (again : at32Configure usart second middle = some last)
    : (Encodes first (middle.usart usart.inst) ↔ first.Plain)
      ∧ (Encodes second (last.usart usart.inst) ↔ second.Plain) := by
  have encodes {cfg : SerialConfigure} {before after : Board} (supported : cfg.Supported)
      (configured : at32Configure usart cfg before = some after)
      : Encodes cfg (after.usart usart.inst) ↔ cfg.Plain := by
    have ⟨ctrl1, stop, enabled⟩ := at32Configure_fields configured
    rw [← plain_iff supported]
    exact ⟨fun encodes => ⟨encodes.ctrl1.symm.trans ctrl1, encodes.stop.symm.trans stop⟩,
      fun plain =>
        {
          ctrl1 := ctrl1.trans plain.1.symm
          stop := stop.trans plain.2.symm
          enabled
        }⟩
  exact ⟨encodes supported configured, encodes secondSupported again⟩

/-- The default configuration of the device layer. -/
def defaultConfigure : SerialConfigure :=
  {
    baudRate := BAUD_RATE_115200
    dataBits := DATA_BITS_8
    stopBits := STOP_BITS_1
    parity := PARITY_NONE
  }

/-- Nine data bits with even parity. -/
def evenConfigure : SerialConfigure :=
  { defaultConfigure with dataBits := DATA_BITS_9, parity := PARITY_EVEN }

/-- The board behind a call. -/
def configuredBoard (cfg : SerialConfigure) (s : Board) : Board :=
  (at32Configure .uart1 cfg s).getD s

theorem at32Configure_encodes_default
    : (Encodes defaultConfigure
            ((configuredBoard defaultConfigure (board72MHz 0)).usart .usart1)
          ↔ defaultConfigure.Plain)
      ∧ (Encodes evenConfigure
            ((configuredBoard evenConfigure
                (configuredBoard defaultConfigure (board72MHz 0))).usart
              .usart1)
          ↔ evenConfigure.Plain) :=
  at32Configure_encodes_iff .uart1 defaultConfigure evenConfigure
    { dataBits := by decide, stopBits := by decide, parity := by decide }
    { dataBits := by decide, stopBits := by decide, parity := by decide } (board72MHz 0) _ _ rfl
    rfl

/-- A request for nine data bits with even parity leaves eight and none. -/
theorem at32Configure_lost_even
    : at32Configure .uart1 evenConfigure (board72MHz 0)
          = some (configuredBoard evenConfigure (board72MHz 0))
      ∧ ¬Encodes evenConfigure
          ((configuredBoard evenConfigure (board72MHz 0)).usart .usart1) := by
  refine ⟨rfl, fun encodes => ?_⟩
  exact absurd encodes.ctrl1 (by decide)

end At32.Serial
