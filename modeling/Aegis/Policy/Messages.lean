import Aegis.Foundation.Format
import Aegis.Foundation.Template
import Aegis.Policy.Config

/-!
Owns the texts that the module logs: the format string of each `AEGIS_AUDIT`,
`AEGIS_INFO` and `AEGIS_ERR`, its arguments, and the line that `printk` stores.
A message whose names hold neither a newline nor the tag is one line with one
tag.

`%s` with a choice of two texts is two formats. The numbers of the loading
identifiers belong to the kernel.

Does not own: time stamps, levels, or the limit of a record's length.
-/

namespace Aegis.Policy

open Aegis.Foundation
open Aegis.Kernel
open CString (ascii)

/-! ### Formats -/

/-- The enumerators of `kernel_read_file.h`. -/
structure LoadNumbers where
  read : KernelReadFileId → Nat
  load : KernelLoadDataId → Nat
  read_injective : Function.Injective read
  load_injective : Function.Injective load

inductive Subsystem where
  | process
  | file
  | audit
  | module
  | sysctl
deriving DecidableEq

/-- The messages of initialization without arguments. -/
inductive StartupText where
  | rule
  | title
  | subtitle
  | initializing
  | active (subsystem : Subsystem)
  | sysctlCreated
  | sysctlRefused
  | shieldUp
  | controlReady
  | securityfsCreated
deriving DecidableEq

/-- The messages that end in an error number. -/
inductive FailureText where
  | sysctl
  | directory
  | entry
  | deferred
deriving DecidableEq

/-- Whatever the module logs. -/
inductive Message where
  | startup (text : StartupText)
  | failure (text : FailureText) (error : Errno)
  | features (value : BitVec 32)
  | logged (record : LogRecord)
deriving DecidableEq

/-- One format for each text that does not depend on an argument. -/
inductive LogFormat where
  | startup (text : StartupText)
  | failure (text : FailureText)
  | features
  | ptraceRestricted
  | ptraceProtected
  | tracemeRestricted
  | fileWriteBlocked
  | fileAccess
  | readFileSyscallBlocked
  | loadDataSyscallBlocked
  | moduleLoadBlocked
  | firmwareLoadBlocked
  | moduleLoadDataBlocked
  | protectedFileAdded (hashValid : Bool)
  | protectedFileRemoved
  | protectedProcessAdded
  | protectedProcessRemoved
  | blockedSyscallAdded
  | blockedSyscallRemoved
  | aegisSwitched (on : Bool)
  | featuresUpdated
  | toggled (toggle : Toggle) (on : Bool)
deriving DecidableEq

/-- The `desc` of `AEGIS_BOOL_HANDLER`. -/
def Toggle.description : Toggle → List UInt8
  | .ptraceRestrictAll => ascii "Ptrace restriction (all processes)"
  | .fileIntegrityEnforce => ascii "File integrity enforcement"
  | .fileIntegrityLog => ascii "File integrity logging"
  | .moduleLoadingDenied => ascii "Module/kexec loading denial"
  | .syscallAuditEnable => ascii "Syscall auditing"

def StartupText.bytes : StartupText → List UInt8
  | .rule => ascii "=============================================="
  | .title => ascii "  AEGIS v1.0.0 - Advanced Guardian for"
  | .subtitle => ascii "  Integrated System Security"
  | .initializing => ascii "Initializing subsystems..."
  | .active .process => ascii "  [+] Process protection: active"
  | .active .file => ascii "  [+] File integrity: active"
  | .active .audit => ascii "  [+] Syscall audit: active"
  | .active .module => ascii "  [+] Module control: active"
  | .active .sysctl => ascii "  [+] Sysctl interface: active"
  | .sysctlCreated => ascii "Sysctl interface created at /proc/sys/kernel/aegis/"
  | .sysctlRefused => ascii "Failed to register sysctl interface"
  | .shieldUp => ascii "  AEGIS is ACTIVE - Shield is UP"
  | .controlReady => ascii "Control interface ready (6 write endpoints, CAP_MAC_ADMIN)"
  | .securityfsCreated => ascii "Securityfs interface created at /sys/kernel/security/aegis/"

def FailureText.bytes : FailureText → List UInt8
  | .sysctl => ascii "Failed to initialize sysctl: "
  | .directory => ascii "Failed to create securityfs directory: "
  | .entry => ascii "Failed to create securityfs entry: "
  | .deferred => ascii "securityfs init deferred call failed: "

/-- The text before the first argument. -/
def LogFormat.lead : LogFormat → List UInt8
  | .startup text => text.bytes
  | .failure text => text.bytes
  | .features => ascii "  Features: 0x"
  | .ptraceRestricted => ascii "ptrace BLOCKED: "
  | .ptraceProtected => ascii "ptrace BLOCKED: "
  | .tracemeRestricted => ascii "ptrace TRACEME BLOCKED: "
  | .fileWriteBlocked => ascii "file WRITE BLOCKED: "
  | .fileAccess => ascii "file ACCESS: "
  | .readFileSyscallBlocked => ascii "BLOCKED syscall "
  | .loadDataSyscallBlocked => ascii "BLOCKED syscall via kernel_load_data (id="
  | .moduleLoadBlocked => ascii "module LOAD BLOCKED: "
  | .firmwareLoadBlocked => ascii "firmware LOAD BLOCKED: "
  | .moduleLoadDataBlocked => ascii "module LOAD DATA BLOCKED: "
  | .protectedFileAdded _ => ascii "Protected file added: "
  | .protectedFileRemoved => ascii "Protected file removed: "
  | .protectedProcessAdded => ascii "Protected process added: "
  | .protectedProcessRemoved => ascii "Protected process removed: "
  | .blockedSyscallAdded => ascii "Blocked syscall added: "
  | .blockedSyscallRemoved => ascii "Blocked syscall removed: "
  | .aegisSwitched on => if on then ascii "AEGIS ENABLED" else ascii "AEGIS DISABLED"
  | .featuresUpdated => ascii "Features updated: 0x"
  | .toggled toggle on => toggle.description ++ if on then ascii ": ON" else ascii ": OFF"

/-- The texts after each argument. -/
def LogFormat.literals : LogFormat → List (List UInt8)
  | .startup _ => []
  | .failure _ => [[]]
  | .features => [[]]
  | .ptraceRestricted =>
      [ascii "[", ascii "] -> ", ascii "[", ascii "] (all ptrace restricted)"]
  | .ptraceProtected => [ascii "[", ascii "] -> PROTECTED ", ascii "[", ascii "]"]
  | .tracemeRestricted => [ascii "[", ascii "] from ", ascii "[", ascii "]"]
  | .fileWriteBlocked => [ascii "[", ascii "] -> ", ascii " (protected)"]
  | .fileAccess => [ascii "[", ascii "] -> ", ascii " (mask=0x", ascii ")"]
  | .readFileSyscallBlocked => [ascii " via kernel_read_file (id=", ascii ")"]
  | .loadDataSyscallBlocked => [ascii ")"]
  | .moduleLoadBlocked => [ascii "[", ascii "] -> ", []]
  | .firmwareLoadBlocked => [ascii "[", ascii "]"]
  | .moduleLoadDataBlocked => [ascii "[", ascii "]"]
  | .protectedFileAdded hashValid =>
      [if hashValid then ascii " (hash=valid)" else ascii " (hash=pending)"]
  | .protectedFileRemoved => [[]]
  | .protectedProcessAdded => [ascii " (pid=", ascii ")"]
  | .protectedProcessRemoved => [ascii " (pid=", ascii ")"]
  | .blockedSyscallAdded => [[]]
  | .blockedSyscallRemoved => [[]]
  | .aegisSwitched _ => []
  | .featuresUpdated => [[]]
  | .toggled _ _ => []

/-! ### Arguments -/

inductive LogArgument where
  | name (text : CString)
  | number (value : Int)
  | hex (value : BitVec 32)
  | hexWord (value : BitVec 32)

/-- `%s`, `%d`, `%x` and `%08x`. -/
def LogArgument.text : LogArgument → List UInt8
  | .name text => text.bytes
  | .number value => decimal value
  | .hex value => hexNat value.toNat
  | .hexWord value => Foundation.hexWord value

def taskArguments (task : TaskName) : List LogArgument := [.name task.comm, .number task.pid]

namespace LogRecord

def format : LogRecord → LogFormat
  | .ptraceRestricted _ _ => .ptraceRestricted
  | .ptraceProtected _ _ => .ptraceProtected
  | .tracemeRestricted _ _ => .tracemeRestricted
  | .fileWriteBlocked _ _ => .fileWriteBlocked
  | .fileAccess _ _ _ => .fileAccess
  | .readFileSyscallBlocked _ _ => .readFileSyscallBlocked
  | .loadDataSyscallBlocked _ => .loadDataSyscallBlocked
  | .moduleLoadBlocked _ _ => .moduleLoadBlocked
  | .firmwareLoadBlocked _ => .firmwareLoadBlocked
  | .moduleLoadDataBlocked _ => .moduleLoadDataBlocked
  | .protectedFileAdded _ hashValid => .protectedFileAdded hashValid
  | .protectedFileRemoved _ => .protectedFileRemoved
  | .protectedProcessAdded _ _ => .protectedProcessAdded
  | .protectedProcessRemoved _ _ => .protectedProcessRemoved
  | .blockedSyscallAdded _ => .blockedSyscallAdded
  | .blockedSyscallRemoved _ => .blockedSyscallRemoved
  | .aegisSwitched on => .aegisSwitched on
  | .featuresUpdated _ => .featuresUpdated
  | .toggled toggle on => .toggled toggle on

def arguments (numbers : LoadNumbers) : LogRecord → List LogArgument
  | .ptraceRestricted current child => taskArguments current ++ taskArguments child
  | .ptraceProtected current child => taskArguments current ++ taskArguments child
  | .tracemeRestricted current parent => taskArguments current ++ taskArguments parent
  | .fileWriteBlocked current path => taskArguments current ++ [.name path]
  | .fileAccess current path mask => taskArguments current ++ [.name path, .hex mask]
  | .readFileSyscallBlocked nr id => [.number nr, .number (numbers.read id)]
  | .loadDataSyscallBlocked id => [.number (numbers.load id)]
  | .moduleLoadBlocked current path => taskArguments current ++ [.name path]
  | .firmwareLoadBlocked current => taskArguments current
  | .moduleLoadDataBlocked current => taskArguments current
  | .protectedFileAdded path _ => [.name path]
  | .protectedFileRemoved path => [.name path]
  | .protectedProcessAdded comm pid => [.name comm, .number pid]
  | .protectedProcessRemoved comm pid => [.name comm, .number pid]
  | .blockedSyscallAdded nr => [.number nr]
  | .blockedSyscallRemoved nr => [.number nr]
  | .aegisSwitched _ => []
  | .featuresUpdated features => [.hexWord features]
  | .toggled _ _ => []

end LogRecord

namespace Message

def format : Message → LogFormat
  | .startup text => .startup text
  | .failure text _ => .failure text
  | .features _ => .features
  | .logged record => record.format

def arguments (numbers : LoadNumbers) : Message → List LogArgument
  | .startup _ => []
  | .failure _ error => [.number error.ret]
  | .features value => [.hexWord value]
  | .logged record => record.arguments numbers

/-- The formatted text, without the tag. -/
def text (numbers : LoadNumbers) (message : Message) : List UInt8 :=
  template message.format.lead
    (((message.arguments numbers).map LogArgument.text).zip message.format.literals)

end Message

/-- `AEGIS_LOG` without its newline. -/
def aegisLog (message : List UInt8) : List UInt8 := ascii "aegis: " ++ message

/-! ### One line with one tag -/

def logTag : List UInt8 := ascii "aegis:"

/-- The formats that the module has. -/
def LogFormat.all : List LogFormat :=
  [.startup .rule, .startup .title, .startup .subtitle, .startup .initializing,
    .startup (.active .process), .startup (.active .file), .startup (.active .audit),
    .startup (.active .module), .startup (.active .sysctl), .startup .sysctlCreated,
    .startup .sysctlRefused, .startup .shieldUp, .startup .controlReady,
    .startup .securityfsCreated, .failure .sysctl, .failure .directory, .failure .entry,
    .failure .deferred, .features,
    .ptraceRestricted, .ptraceProtected, .tracemeRestricted, .fileWriteBlocked, .fileAccess,
    .readFileSyscallBlocked, .loadDataSyscallBlocked, .moduleLoadBlocked, .firmwareLoadBlocked,
    .moduleLoadDataBlocked, .protectedFileAdded true, .protectedFileAdded false,
    .protectedFileRemoved, .protectedProcessAdded, .protectedProcessRemoved, .blockedSyscallAdded,
    .blockedSyscallRemoved, .aegisSwitched true, .aegisSwitched false, .featuresUpdated,
    .toggled .ptraceRestrictAll true, .toggled .ptraceRestrictAll false,
    .toggled .fileIntegrityEnforce true, .toggled .fileIntegrityEnforce false,
    .toggled .fileIntegrityLog true, .toggled .fileIntegrityLog false,
    .toggled .moduleLoadingDenied true, .toggled .moduleLoadingDenied false,
    .toggled .syscallAuditEnable true, .toggled .syscallAuditEnable false]

theorem LogFormat.mem_all (format : LogFormat) : format ∈ LogFormat.all := by
  cases format with
  | startup text =>
      cases text with
      | active subsystem => cases subsystem <;> decide
      | _ => decide
  | failure text => cases text <;> decide
  | protectedFileAdded hashValid => cases hashValid <;> decide
  | aegisSwitched on => cases on <;> decide
  | toggled toggle on => cases toggle <;> cases on <;> decide
  | _ => decide

/-- The constant texts of a format. -/
structure LogFormat.Sound (format : LogFormat) : Prop where
  lead : occurrences logTag format.lead = 0
  leadEnds : format.literals ≠ [] → EndsOutside logTag format.lead
  literals : ∀ literal ∈ format.literals, Fence logTag literal
  separated : ∀ literal ∈ format.literals.dropLast, literal ≠ []
  printable : ∀ literal ∈ format.lead :: format.literals, 10 ∉ literal ∧ 0 ∉ literal

instance (format : LogFormat) : Decidable format.Sound :=
  decidable_of_iff
    (occurrences logTag format.lead = 0 ∧
      (format.literals ≠ [] → EndsOutside logTag format.lead) ∧
      (∀ literal ∈ format.literals, Fence logTag literal) ∧
      (∀ literal ∈ format.literals.dropLast, literal ≠ []) ∧
      ∀ literal ∈ format.lead :: format.literals, 10 ∉ literal ∧ 0 ∉ literal)
    ⟨fun all => ⟨all.1, all.2.1, all.2.2.1, all.2.2.2.1, all.2.2.2.2⟩,
      fun sound => ⟨sound.lead, sound.leadEnds, sound.literals, sound.separated,
        sound.printable⟩⟩

theorem LogFormat.sound (format : LogFormat) : format.Sound := by
  have each : ∀ format ∈ LogFormat.all, format.Sound := by decide +kernel
  exact each format format.mem_all

/-- A name that can be logged without another line or another tag. -/
structure PlainName (name : CString) : Prop where
  noNewline : 10 ∉ name.bytes
  untagged : occurrences logTag name.bytes = 0

instance (name : CString) : Decidable (PlainName name) :=
  decidable_of_iff (10 ∉ name.bytes ∧ occurrences logTag name.bytes = 0)
    ⟨fun both => ⟨both.1, both.2⟩, fun plain => ⟨plain.noNewline, plain.untagged⟩⟩

def LogArgument.Plain : LogArgument → Prop
  | .name text => PlainName text
  | _ => True

instance : (argument : LogArgument) → Decidable argument.Plain
  | .name text => inferInstanceAs (Decidable (PlainName text))
  | .number _ => isTrue trivial
  | .hex _ => isTrue trivial
  | .hexWord _ => isTrue trivial

/-- What a part of a plain line holds. -/
structure PlainPart (part : List UInt8) : Prop where
  noNewline : 10 ∉ part
  noNul : 0 ∉ part
  untagged : occurrences logTag part = 0

instance (part : List UInt8) : Decidable (PlainPart part) :=
  decidable_of_iff (10 ∉ part ∧ 0 ∉ part ∧ occurrences logTag part = 0)
    ⟨fun all => ⟨all.1, all.2.1, all.2.2⟩,
      fun plain => ⟨plain.noNewline, plain.noNul, plain.untagged⟩⟩

/-- Digits hold no colon. -/
theorem plainPart_of_alnum {part : List UInt8}
    (alnum : ∀ byte ∈ part, byte = 45 ∨ isDigit byte = true ∨
      (97 ≤ byte.toNat ∧ byte.toNat ≤ 102)) : PlainPart part := by
  have lacks : ∀ byte : UInt8, byte ≠ 45 → isDigit byte = false → byte.toNat < 97 →
      byte ∉ part := by
    intro byte noSign noDigit low member
    rcases alnum byte member with sign | digit | letter
    · exact noSign sign
    · rw [noDigit] at digit
      cases digit
    · omega
  have colon : (58 : UInt8) ∈ logTag := by decide
  exact ⟨lacks 10 (by decide) (by decide) (by decide), lacks 0 (by decide) (by decide) (by decide),
    occurrences_of_not_mem colon (lacks 58 (by decide) (by decide) (by decide))⟩

theorem LogArgument.Plain.part {argument : LogArgument} (plain : argument.Plain) :
    PlainPart argument.text := by
  cases argument with
  | name text => exact ⟨plain.noNewline, text.noNul, plain.untagged⟩
  | number value =>
      apply plainPart_of_alnum
      intro byte member
      rcases mem_decimal member with sign | digit
      · exact Or.inl sign
      · exact Or.inr (Or.inl digit)
  | hex value => exact plainPart_of_alnum fun byte member => Or.inr (mem_hexNat member)
  | hexWord value => exact plainPart_of_alnum fun byte member => Or.inr (mem_hexBytes member)

/-- The names in the message are plain. -/
def Message.Plain (numbers : LoadNumbers) (message : Message) : Prop :=
  ∀ argument ∈ message.arguments numbers, argument.Plain

instance (numbers : LoadNumbers) (message : Message) : Decidable (message.Plain numbers) :=
  inferInstanceAs (Decidable (∀ argument ∈ message.arguments numbers, argument.Plain))

theorem Message.arguments_length (numbers : LoadNumbers) (message : Message) :
    (message.arguments numbers).length = message.format.literals.length := by
  cases message with
  | logged record => cases record <;> rfl
  | _ => rfl

/-- A plain message is one line, and its text holds no tag. -/
theorem Message.Plain.part {numbers : LoadNumbers} {message : Message}
    (plain : message.Plain numbers) : PlainPart (message.text numbers) := by
  have sound := message.format.sound
  have fields : ∀ field ∈ (message.arguments numbers).map LogArgument.text, PlainPart field := by
    intro field member
    obtain ⟨argument, inArguments, rfl⟩ := List.mem_map.mp member
    exact (plain argument inArguments).part
  have literals : ∀ literal ∈ message.format.literals, 10 ∉ literal ∧ 0 ∉ literal :=
    fun literal member => sound.printable literal (List.mem_cons_of_mem _ member)
  have leads := sound.printable message.format.lead List.mem_cons_self
  refine ⟨not_mem_template leads.1 ?_, not_mem_template leads.2 ?_,
    occurrences_template (by decide) sound.lead ?_ ?_ ?_⟩
  · intro part member
    obtain ⟨inFields, inLiterals⟩ := List.of_mem_zip member
    exact ⟨(fields _ inFields).noNewline, (literals _ inLiterals).1⟩
  · intro part member
    obtain ⟨inFields, inLiterals⟩ := List.of_mem_zip member
    exact ⟨(fields _ inFields).noNul, (literals _ inLiterals).2⟩
  · intro present
    apply sound.leadEnds
    rintro none
    rw [none, List.zip_nil_right] at present
    exact present rfl
  · intro part member
    obtain ⟨inFields, inLiterals⟩ := List.of_mem_zip member
    exact ⟨(fields _ inFields).untagged, sound.literals _ inLiterals⟩
  · intro part member
    have lengths := message.arguments_length numbers
    have seconds : (((message.arguments numbers).map LogArgument.text).zip
        message.format.literals).map Prod.snd = message.format.literals :=
      List.map_snd_zip (by rw [List.length_map, lengths])
    apply sound.separated
    rw [← seconds, ← List.map_dropLast]
    exact List.mem_map_of_mem member

/-- The tag of a logged text is found at its start. -/
theorem strstr_aegisLog (message : List UInt8) :
    strstr logTag (aegisLog message) = some (aegisLog message) := by
  have shape : aegisLog message = 97 :: ([101, 103, 105, 115, 58, 32] ++ message) := rfl
  rw [shape, strstr, if_pos]
  rw [List.isPrefixOf_iff_prefix]
  exact ⟨32 :: message, rfl⟩

theorem occurrences_aegisLog (message : List UInt8) :
    occurrences logTag (aegisLog message) = 1 + occurrences logTag message := by
  have once : occurrences logTag (ascii "aegis: ") = 1 := by decide +kernel
  rw [aegisLog, occurrences_append_of_last (by decide) (by decide +kernel), once]

end Aegis.Policy
