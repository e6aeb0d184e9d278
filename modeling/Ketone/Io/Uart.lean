import Ketone.Io.Serial

/-! The driver of the serial line and the device behind its ports, which sends what it has taken in
its own time. -/

namespace Ketone.Io.Uart
open Library Library.Outbox Serial

structure Config where
  interruptEnable : BitVec 8
  divisorLow : BitVec 8
  divisorHigh : BitVec 8
  fifoControl : BitVec 8
  lineControl : BitVec 8
  modemControl : BitVec 8
deriving DecidableEq

/-- The highest bit of the line control puts the divisor behind the first two ports. -/
def Config.dlab (config : Config) : Bool := config.lineControl.getLsbD 7

def Config.outb (config : Config) (port : BitVec 16) (val : BitVec 8) : Config :=
  if port = COM1 + 0 then if config.dlab then { config with divisorLow := val } else config
  else if port = COM1 + 1 then
    if config.dlab then { config with divisorHigh := val } else { config with interruptEnable := val }
  else if port = COM1 + 2 then { config with fifoControl := val }
  else if port = COM1 + 3 then { config with lineControl := val }
  else if port = COM1 + 4 then { config with modemControl := val }
  else config

def Config.room (config : Config) : Nat := if config.fifoControl.getLsbD 0 then 16 else 1

structure Line where
  config : Config
  sender : Sender (BitVec 8)

/-- A byte for the line goes into the queue; turning the queue on or off empties it, and so does the
bit for that. -/
def Line.outb (line : Line) (port : BitVec 16) (val : BitVec 8) : Line where
  config := line.config.outb port val
  sender :=
    if port = COM1 + 0 ∧ ¬ line.config.dlab then line.sender.put line.config.room val
    else if port = COM1 + 2 ∧ (val.getLsbD 2 ∨ val.getLsbD 0 ≠ line.config.fifoControl.getLsbD 0) then
      line.sender.clear
    else line.sender

/-- One bit of the line status says that nothing waits; the others are of no interest here. -/
def Line.lineStatus (line : Line) (others : BitVec 8) : BitVec 8 :=
  if line.sender.waiting = [] then others ||| 0x20 else others &&& ~~~0x20

structure System where
  line : Line
  todo : List Op

/-- A byte is sent, or the driver goes on. -/
inductive Event where
  | sends
  | driver (others : BitVec 8)

def driverStep (s : System) (others : BitVec 8) : System :=
  match s.todo with
  | [] => s
  | .untilReady :: rest => if serialReady (s.line.lineStatus others) then ⟨s.line, rest⟩ else s
  | .outb port val :: rest => ⟨s.line.outb port val, rest⟩

def step (s : System) : Event → System
  | .sends => { s with line := { s.line with sender := s.line.sender.drain } }
  | .driver others => driverStep s others

def run (s : System) (events : List Event) : System := events.foldl step s

inductive Call where
  | write (c : BitVec 8)
  | print (s : Str)
  | printLN (s : Str)
  | printHex (val : BitVec 32)
  | printHexLN (val : BitVec 32)
  | printHex64 (val : BitVec 64)
  | printHex64LN (val : BitVec 64)
  | printDec (value : BitVec 32) (stale : Int → BitVec 8)
  | printDecLN (value : BitVec 32) (stale : Int → BitVec 8)

def Call.ops : Call → List Op
  | .write c => serialWrite c
  | .print s => serialPrint s
  | .printLN s => serialPrintLN s
  | .printHex val => serialPrintHex val
  | .printHexLN val => serialPrintHexLN val
  | .printHex64 val => serialPrintHex64 val
  | .printHex64LN val => serialPrintHex64LN val
  | .printDec value stale => serialPrintDec value stale
  | .printDecLN value stale => serialPrintDecLN value stale

/-- The text that a call is to print: its string up to the NUL, or the numeral of its number. -/
def Call.text : Call → Str
  | .write c => [c]
  | .print s => cString s
  | .printLN s => cString s ++ code ['\n']
  | .printHex val => hexNumeral 8 val.toNat
  | .printHexLN val => hexNumeral 8 val.toNat ++ code ['\n']
  | .printHex64 val => hexNumeral 16 val.toNat
  | .printHex64LN val => hexNumeral 16 val.toNat ++ code ['\n']
  | .printDec value _ => decNumeral value.toNat
  | .printDecLN value _ => decNumeral value.toNat ++ code ['\n']

def Paired (ops : List Op) : Prop := ops = pairs (text ops)

section
variable {first second : List Op}

theorem Paired.append (left : Paired first) (right : Paired second) : Paired (first ++ second) := by
  unfold Paired at left right ⊢
  rw [text_append, pairs_append, ← left, ← right]

theorem paired_pairs (str : Str) : Paired (pairs str) := by
  unfold Paired
  rw [text_pairs]

theorem paired_print (s : Str) : Paired (serialPrint s) := by
  rw [serialPrint_eq]
  exact paired_pairs _

theorem paired_flatMap {α : Type} (items : List α) (c : α → BitVec 8) :
    Paired (items.flatMap fun item => serialWrite (c item)) := by
  have same : items.flatMap (fun item => serialWrite (c item)) = pairs (items.map c) := by
    unfold pairs
    rw [List.flatMap_map]
  rw [same]
  exact paired_pairs _

theorem paired_dec (value : BitVec 32) (stale : Int → BitVec 8) : Paired (serialPrintDec value stale) := by
  unfold serialPrintDec
  split
  · exact paired_print _
  · exact paired_print _

theorem Call.paired (call : Call) : Paired call.ops := by
  cases call with
  | write c => exact paired_pairs [c]
  | print s => exact paired_print s
  | printLN s => exact (paired_print s).append (paired_print _)
  | printHex val => exact (paired_print _).append (paired_flatMap _ _)
  | printHexLN val => exact ((paired_print _).append (paired_flatMap _ _)).append (paired_print _)
  | printHex64 val => exact (paired_print _).append (paired_flatMap _ _)
  | printHex64LN val => exact ((paired_print _).append (paired_flatMap _ _)).append (paired_print _)
  | printDec value stale => exact paired_dec value stale
  | printDecLN value stale => exact (paired_dec value stale).append (paired_print _)

theorem text_print (s : Str) : text (serialPrint s) = cString s := by
  rw [serialPrint_eq, text_pairs]
  rfl

theorem text_newline : text (serialPrint (code ['\n'])) = code ['\n'] := by decide

theorem text_decNumeral (value : BitVec 32) (stale : Int → BitVec 8) :
    text (serialPrintDec value stale) = decNumeral value.toNat := by
  have zero : value = 0 ↔ value.toNat = 0 := ⟨fun zero => congrArg BitVec.toNat zero, fun zero => BitVec.eq_of_toNat_eq zero⟩
  rw [text_dec, decNumeral]
  simp only [zero]

theorem Call.text_ops (call : Call) : Serial.text call.ops = call.text := by
  cases call with
  | write c => exact text_pairs [c]
  | print s => exact text_print s
  | printLN s => exact (text_append _ _).trans (congrArg₂ _ (text_print s) text_newline)
  | printHex val => exact text_hex val
  | printHexLN val => exact (text_append _ _).trans (congrArg₂ _ (text_hex val) text_newline)
  | printHex64 val => exact text_hex64 val
  | printHex64LN val => exact (text_append _ _).trans (congrArg₂ _ (text_hex64 val) text_newline)
  | printDec value stale => exact text_decNumeral value stale
  | printDecLN value stale => exact (text_append _ _).trans (congrArg₂ _ (text_decNumeral value stale) text_newline)

theorem ops_calls (calls : List Call) : calls.flatMap Call.ops = pairs (calls.flatMap Call.text) := by
  induction calls with
  | nil => rfl
  | cons call rest ih =>
    have own : call.ops = pairs call.text := by
      rw [← call.text_ops]
      exact call.paired
    rw [List.flatMap_cons, List.flatMap_cons, pairs_append, ih, own]

end

def Config.after (config : Config) : Op → Config
  | .outb port val => config.outb port val
  | .untilReady => config

/-- 38400 baud, eight bits without parity, the queue on; the interrupts are off unless the divisor stood behind
their port at the start. -/
structure SetUp (start config : Config) : Prop where
  divisorLow : config.divisorLow = 0x03
  divisorHigh : config.divisorHigh = 0x00
  fifoControl : config.fifoControl = 0xC7
  lineControl : config.lineControl = 0x03
  modemControl : config.modemControl = 0x0B
  interrupts : start.dlab = false → config.interruptEnable = 0

theorem setUp_done (config : Config) : SetUp config (serialInit.foldl Config.after config) := by
  have registers : SetUp ⟨0, 0, 0, 0, 0x80, 0⟩ (serialInit.foldl Config.after config) := by
    constructor <;> simp [serialInit, Config.after, Config.outb, COM1, Config.dlab]
  refine { registers with interrupts := ?_ }
  intro low
  have bit : config.lineControl[7] = false := low
  simp [serialInit, Config.after, Config.outb, COM1, Config.dlab, bit]

/-- No byte of the set-up gets into the queue. -/
theorem setUp_sender {start : Config} (line : Line) {k : Nat} (below : k < serialInit.length)
    (config : line.config = (serialInit.take k).foldl Config.after start) {port : BitVec 16} {val : BitVec 8}
    (here : serialInit[k] = .outb port val) :
    (line.outb port val).sender = line.sender ∨ (line.outb port val).sender = line.sender.clear := by
  have seven : serialInit.length = 7 := rfl
  have elsewhere : port ≠ COM1 + 0 → (line.outb port val).sender = line.sender ∨
      (line.outb port val).sender = line.sender.clear := by
    intro other
    unfold Line.outb
    rw [if_neg fun both => other both.1]
    split
    · exact Or.inr rfl
    · exact Or.inl rfl
  by_cases data : k = 2
  · subst data
    obtain ⟨rfl, rfl⟩ := Op.outb.inj here
    left
    have divisor : line.config.dlab = true := by
      rw [config]
      simp [serialInit, Config.after, Config.outb, COM1, Config.dlab]
    simp [Line.outb, divisor, COM1]
  · apply elsewhere
    rintro rfl
    have all : ∀ k < 7, k ≠ 2 → ∀ val, serialInit[k]? ≠ some (.outb (COM1 + 0) val) := by
      simp only [serialInit, COM1]
      intro k below other val
      match k, below, other with
      | 0, _, _ | 1, _, _ | 3, _, _ | 4, _, _ | 5, _, _ | 6, _, _ => simp
    exact all k (seven ▸ below) data val (by rw [List.getElem?_eq_getElem below, here])

structure Starting (first : Line) (ops : List Op) (k : Nat) (s : System) : Prop where
  below : k < serialInit.length
  todo : s.todo = serialInit.drop k ++ ops
  config : s.line.config = (serialInit.take k).foldl Config.after first.config
  stream : s.line.sender.stream <+: first.sender.stream

/-- The set-up is done, a part of the text has been taken by the device, and the line has been found ready
if the next byte is about to be written. -/
structure Printing (first : Line) (str : Str) (s : System) : Prop where
  config : s.line.config = serialInit.foldl Config.after first.config
  taken : ∃ before part left, before <+: first.sender.stream ∧ str = part ++ left ∧
    s.line.sender.stream = before ++ part ∧
    (s.todo = pairs left ∨ ∃ c rest, left = c :: rest ∧ s.todo = .outb COM1 c :: pairs rest ∧
      s.line.sender.waiting = [])

section
variable {first : Line} {ops : List Op} {str : Str} {k : Nat} {s : System}

theorem Starting.sends (starting : Starting first ops k s) : Starting first ops k (step s .sends) := by
  refine { starting with stream := ?_ }
  change s.line.sender.drain.stream <+: _
  rw [Sender.stream_drain]
  exact starting.stream

theorem Starting.driver (starting : Starting first (pairs str) k s) (others : BitVec 8) :
    Starting first (pairs str) (k + 1) (step s (.driver others)) ∨
      Printing first str (step s (.driver others)) := by
  obtain ⟨below, todo, config, stream⟩ := starting
  have writes : ∃ port val, serialInit[k] = .outb port val := by
    have all : ∀ op ∈ serialInit, ∃ port val, op = .outb port val := by simp [serialInit]
    exact all _ (List.getElem_mem below)
  obtain ⟨port, val, here⟩ := writes
  have front : s.todo = .outb port val :: (serialInit.drop (k + 1) ++ pairs str) := by
    rw [todo, List.drop_eq_getElem_cons below, here]
    rfl
  have next : step s (.driver others) = ⟨s.line.outb port val, serialInit.drop (k + 1) ++ pairs str⟩ := by
    unfold step driverStep
    simp only [front]
  have config' : (s.line.outb port val).config = (serialInit.take (k + 1)).foldl Config.after first.config := by
    rw [List.take_succ_eq_append_getElem below, List.foldl_append, ← config, here]
    rfl
  have stream' : (s.line.outb port val).sender.stream <+: first.sender.stream := by
    rcases setUp_sender s.line below config here with same | cleared
    · rw [same]
      exact stream
    · rw [cleared]
      refine List.IsPrefix.trans ?_ stream
      simp [Sender.stream, Sender.clear]
  rw [next]
  by_cases more : k + 1 < serialInit.length
  · exact Or.inl ⟨more, rfl, config', stream'⟩
  · have last : k + 1 = serialInit.length := by omega
    refine Or.inr ⟨?_, (s.line.outb port val).sender.stream, [], str, stream', rfl, ?_, ?_⟩
    · dsimp only
      rw [config', last, List.take_length]
    · rw [List.append_nil]
    · left
      dsimp only
      rw [last, List.drop_length, List.nil_append]

theorem Printing.sends (printing : Printing first str s) : Printing first str (step s .sends) := by
  obtain ⟨config, before, part, left, early, split, stream, rest⟩ := printing
  refine ⟨config, before, part, left, early, split, ?_, ?_⟩
  · change s.line.sender.drain.stream = _
    rw [Sender.stream_drain, stream]
  · rcases rest with todo | ⟨c, behind, first, todo, empty⟩
    · exact Or.inl todo
    · exact Or.inr ⟨c, behind, first, todo, Sender.waiting_drain empty⟩

theorem empty_of_ready {line : Line} {others : BitVec 8} (ready : serialReady (line.lineStatus others) = true) :
    line.sender.waiting = [] := by
  by_contra waits
  have clear : others &&& ~~~0x20 &&& 0x20 = 0 := by
    rw [BitVec.and_assoc]
    simp
  unfold serialReady Line.lineStatus at ready
  rw [if_neg waits, clear] at ready
  simp at ready

theorem write_taken {start : Config} {line : Line} (config : SetUp start line.config) (empty : line.sender.waiting = [])
    (c : BitVec 8) : (line.outb COM1 c).config = line.config ∧
      (line.outb COM1 c).sender.stream = line.sender.stream ++ [c] := by
  have low : line.config.dlab = false := by
    unfold Config.dlab
    rw [config.lineControl]
    decide
  have roomy : 0 < line.config.room := by
    unfold Config.room
    split <;> decide
  have zero : COM1 = COM1 + 0 := by decide
  constructor
  · change line.config.outb COM1 c = _
    unfold Config.outb
    rw [if_pos zero, low]
    rfl
  · unfold Line.outb
    dsimp only
    rw [if_pos ⟨zero, by simp [low]⟩]
    exact Sender.stream_put roomy empty c

theorem Printing.driver (printing : Printing first str s) (others : BitVec 8) :
    Printing first str (step s (.driver others)) := by
  obtain ⟨config, before, part, left, early, split, stream, rest⟩ := printing
  change Printing first str (driverStep s others)
  rcases rest with todo | ⟨c, behind, rfl, todo, empty⟩
  · cases left with
    | nil =>
      have stays : driverStep s others = s := by
        unfold driverStep
        simp only [todo]
        rfl
      rw [stays]
      exact ⟨config, before, part, [], early, split, stream, Or.inl todo⟩
    | cons c behind =>
      have front : s.todo = .untilReady :: .outb COM1 c :: pairs behind := todo
      have polls : driverStep s others =
          if serialReady (s.line.lineStatus others) then ⟨s.line, .outb COM1 c :: pairs behind⟩ else s := by
        unfold driverStep
        simp only [front]
      rw [polls]
      split
      next ready =>
        exact ⟨config, before, part, c :: behind, early, split, stream,
          Or.inr ⟨c, behind, rfl, rfl, empty_of_ready ready⟩⟩
      next => exact ⟨config, before, part, c :: behind, early, split, stream, Or.inl todo⟩
  · have writes : driverStep s others = ⟨s.line.outb COM1 c, pairs behind⟩ := by
      unfold driverStep
      simp only [todo]
    have setUp : SetUp first.config s.line.config := by
      rw [config]
      exact setUp_done first.config
    obtain ⟨same, longer⟩ := write_taken setUp empty c
    rw [writes]
    refine ⟨same.trans config, before, part ++ [c], behind, early, ?_, ?_, Or.inl rfl⟩
    · simp [split]
    · rw [longer, stream, List.append_assoc]

/-- The two phases of a run. -/
theorem run_phases (events : List Event) (phase : (∃ k, Starting first (pairs str) k s) ∨ Printing first str s) :
    (∃ k, Starting first (pairs str) k (run s events)) ∨ Printing first str (run s events) := by
  induction events generalizing s with
  | nil => exact phase
  | cons event rest ih =>
    apply ih
    rcases phase with ⟨k, starting⟩ | printing
    · cases event with
      | sends => exact Or.inl ⟨k, starting.sends⟩
      | driver others =>
        rcases starting.driver others with starting | printing
        · exact Or.inl ⟨k + 1, starting⟩
        · exact Or.inr printing
    · cases event with
      | sends => exact Or.inr printing.sends
      | driver others => exact Or.inr (printing.driver others)

/-- Whatever is left to do, a device that sends lets the driver do it. -/
theorem can_finish (s : System) : ∃ more, (run s more).todo = [] ∧ (run s more).line.sender.waiting = [] := by
  have sending : ∀ s : System, ∃ more, (run s more).todo = s.todo ∧ (run s more).line.sender.waiting = [] := by
    intro s
    refine ⟨List.replicate s.line.sender.waiting.length .sends, ?_⟩
    have same : ∀ n (s : System), run s (List.replicate n .sends) =
        { s with line := { s.line with sender := Sender.drain^[n] s.line.sender } } := by
      intro n
      induction n with
      | zero => exact fun s => rfl
      | succ n ih => exact fun s => ih _
    rw [same, Sender.drained]
    exact ⟨rfl, rfl⟩
  have append : ∀ (s : System) (left right : List Event), run s (left ++ right) = run (run s left) right :=
    fun s left right => List.foldl_append
  generalize left : s.todo = ops
  induction ops generalizing s with
  | nil =>
    obtain ⟨more, todo, empty⟩ := sending s
    exact ⟨more, todo.trans left, empty⟩
  | cons op rest ih =>
    obtain ⟨more, todo, empty⟩ := sending s
    have front : (run s more).todo = op :: rest := todo.trans left
    have onward : (step (run s more) (.driver 0)).todo = rest := by
      cases op with
      | outb port val =>
        unfold step driverStep
        simp only [front]
      | untilReady =>
        have ready : serialReady ((run s more).line.lineStatus 0) = true := by
          unfold Line.lineStatus
          rw [if_pos empty]
          decide
        unfold step driverStep
        simp only [front, ready, if_true]
    obtain ⟨last, done⟩ := ih _ onward
    refine ⟨more ++ .driver 0 :: last, ?_⟩
    rw [append]
    exact done

theorem initial_phase (line : Line) (str : Str) : Starting line (pairs str) 0 ⟨line, serialInit ++ pairs str⟩ :=
  ⟨by decide, rfl, rfl, List.prefix_rfl⟩

/-- Behind any events, the device can send the whole of the text, and nothing else. -/
theorem all_sent (line : Line) (str : Str) (events : List Event) :
    let s := run ⟨line, serialInit ++ pairs str⟩ events
    ∃ more before, before <+: line.sender.stream ∧ (run s more).todo = [] ∧ (run s more).line.sender.waiting = [] ∧
      (run s more).line.sender.sent = before ++ str := by
  intro s
  obtain ⟨more, done, empty⟩ := can_finish s
  have phases := run_phases more (run_phases events (Or.inl ⟨0, initial_phase line str⟩))
  rcases phases with ⟨k, starting⟩ | ⟨_, before, part, left, early, split, stream, rest⟩
  · have todo := List.append_eq_nil_iff.mp (starting.todo.symm.trans done)
    have below := starting.below
    exact absurd (List.drop_eq_nil_iff.mp todo.1) (by omega)
  · have all : (run s more).line.sender.stream = (run s more).line.sender.sent := by
      unfold Sender.stream
      rw [empty, List.append_nil]
    have written : left = [] := by
      rcases rest with todo | ⟨c, behind, rfl, todo, _⟩
      · cases left with
        | nil => rfl
        | cons c behind => cases todo.symm.trans done
      · cases todo.symm.trans done
    refine ⟨more, before, early, done, empty, ?_⟩
    rw [← all, split, written, List.append_nil]
    exact stream

end

/-- Whatever the device held and however its registers were set at the start, whatever is printed behind the
set-up, and however the device's sending falls between the accesses of the driver: once the set-up is done the registers
have the values that it has given them, what the device has taken is a part of what was in it before and behind that the
texts up to some byte, and what the driver is still to write is the rest of them; and from every point on the device can
send all of the texts. -/
theorem no_byte_lost (line : Line) (calls : List Call) (events : List Event) :
    let texts := calls.flatMap Call.text
    let s := run ⟨line, serialInit ++ calls.flatMap Call.ops⟩ events
    ((∃ k < serialInit.length, s.todo = serialInit.drop k ++ calls.flatMap Call.ops ∧
        s.line.config = (serialInit.take k).foldl Config.after line.config ∧
        s.line.sender.stream <+: line.sender.stream) ∨
      s.line.config = serialInit.foldl Config.after line.config ∧ SetUp line.config s.line.config ∧
        ∃ before written left, before <+: line.sender.stream ∧ texts = written ++ left ∧
          s.line.sender.stream = before ++ written ∧ text s.todo = left) ∧
    ∃ more before, before <+: line.sender.stream ∧ (run s more).todo = [] ∧ (run s more).line.sender.waiting = [] ∧
      (run s more).line.sender.sent = before ++ texts := by
  intro texts s
  have same : calls.flatMap Call.ops = pairs texts := ops_calls calls
  have finish := all_sent line texts events
  rw [← same] at finish
  refine ⟨?_, finish⟩
  have phases := run_phases events (Or.inl ⟨0, initial_phase line texts⟩)
  rw [← same] at phases
  rcases phases with ⟨k, starting⟩ | ⟨config, before, part, left, early, split, stream, rest⟩
  · exact Or.inl ⟨k, starting.below, starting.todo, starting.config, starting.stream⟩
  · have setUp : SetUp line.config s.line.config := by
      rw [config]
      exact setUp_done line.config
    refine Or.inr ⟨config, setUp, before, part, left, early, split, stream, ?_⟩
    rcases rest with todo | ⟨c, rest, rfl, todo, _⟩
    · rw [todo, text_pairs]
    · rw [todo, text, if_pos rfl, text_pairs]

end Ketone.Io.Uart
