import Aegis.Control.Commands

/-!
Owns the command line tool `aegisctl.c`: the dispatch on the first argument,
the table of write commands, and the write that reaches the kernel.

`runAegisctl` composes the tool with the control interface. The section on
process policy says when the two agree on the entry that is meant.

Does not own: the text the tool prints, or the commands that only read.
-/

namespace Aegis.Tool

open Aegis.Foundation
open Aegis.Kernel
open Aegis.Policy
open Aegis.Control

/-- What a run of the tool does besides printing. -/
inductive ToolAction where
  | help
  | printFile (file : String)
  | audit (argument : Option CString)
  | writeSysctl (key value : String)
  | usage
  | unknownCommand (name : CString)
  | writeSecfs (file : String) (value : CString)
deriving DecidableEq

/-- `write_cmds`, without the usage texts. -/
def writeCmds : List (String × String) :=
  [("file-add", "protected_files_add"),
   ("file-del", "protected_files_del"),
   ("proc-add", "protected_procs_add"),
   ("proc-del", "protected_procs_del"),
   ("syscall-add", "blocked_syscalls_add"),
   ("syscall-del", "blocked_syscalls_del")]

/-- Arguments after the second are not read. -/
def cmdWrite (argv : List CString) : ToolAction :=
  match argv with
  | _ :: name :: value :: _ =>
      match writeCmds.find? fun cmd => name = .lit cmd.1 with
      | some cmd => .writeSecfs cmd.2 value
      | none => .unknownCommand name
  | _ => .usage

/-- Exit status, and what the run does. -/
def main (argv : List CString) : Int × ToolAction :=
  match argv with
  | _ :: name :: rest =>
      if name = .lit "status" then (0, .printFile "status")
      else if name = .lit "stats" then (0, .printFile "stats")
      else if name = .lit "procs" then (0, .printFile "protected_procs")
      else if name = .lit "files" then (0, .printFile "protected_files")
      else if name = .lit "symlist" then (0, .printFile "blocked_syscalls")
      else if name = .lit "audit" then (0, .audit rest.head?)
      else if name = .lit "enable" then (0, .writeSysctl "enabled" "1")
      else if name = .lit "disable" then (0, .writeSysctl "enabled" "0")
      else if name = .lit "file-add" || name = .lit "file-del" || name = .lit "proc-add" ||
          name = .lit "proc-del" || name = .lit "syscall-add" || name = .lit "syscall-del" then
        (0, cmdWrite argv)
      else if name = .lit "help" || name = .lit "--help" then (0, .help)
      else (1, .unknownCommand name)
  | _ => (0, .help)

/-- `write_secfs` of a caller who may open the file: its return value, and the
policy after the write. -/
def writeSecfs (shash : Shash) (env : ControlEnv) (file : String) (value : CString)
    (policy : PolicyState) : Int × PolicyState :=
  match aectlEntries.find? fun entry => entry.1 = file with
  | none => (-1, policy)
  | some entry =>
      let outcome := aectlWrite shash env entry.2 value.bytes policy
      (if outcome.ret < 0 then -1 else 0, outcome.policy)

/-- The policy after a run of the tool. -/
def runAegisctl (shash : Shash) (env : ControlEnv) (argv : List CString) (policy : PolicyState) :
    PolicyState :=
  match (main argv).2 with
  | .writeSecfs file value => (writeSecfs shash env file value policy).2
  | _ => policy

/-! ### Process policy -/

def argv0 : CString := .lit "aegisctl"

/-- The arguments `<name> <comm> [pid]`. -/
def procArguments (name : String) (comm : CString) (pid : Option Int) : List CString :=
  [argv0, .lit name, comm] ++ (pid.map decimalString).toList

/-- The write reaches the handler unchanged, and the caller may change policy. -/
def Delivers (env : ControlEnv) : Prop := env.capable = true ∧ env.copyFault = false

/-- A process name as a user would give it. -/
structure PlainComm (comm : CString) : Prop where
  nonempty : 1 ≤ comm.length
  fits : comm.length ≤ 15
  noBlank : ∀ byte ∈ comm.bytes, ¬ (9 ≤ byte ∧ byte ≤ 13) ∧ byte ≠ 32

/-- `proc-add` appends the entry that the arguments name, and `proc-del` with
the same arguments removes it again. -/
def ToolAgrees (shash : Shash) (addEnv delEnv : ControlEnv) (comm : CString) (pid : Option Int)
    (policy : PolicyState) : Prop :=
  let added := runAegisctl shash addEnv (procArguments "proc-add" comm pid) policy
  added = { policy with procs := policy.procs.linkTail (procEntry comm (pid.getD 0)) } ∧
    runAegisctl shash delEnv (procArguments "proc-del" comm pid) added = policy

theorem runAegisctl_proc_add (shash : Shash) (env : ControlEnv) (comm : CString)
    (pid : Option Int) (policy : PolicyState) :
    runAegisctl shash env (procArguments "proc-add" comm pid) policy =
      (aectlWrite shash env .protectedProcsAdd comm.bytes policy).policy := by
  rfl

theorem runAegisctl_proc_del (shash : Shash) (env : ControlEnv) (comm : CString)
    (pid : Option Int) (policy : PolicyState) :
    runAegisctl shash env (procArguments "proc-del" comm pid) policy =
      (aectlWrite shash env .protectedProcsDel comm.bytes policy).policy := by
  rfl

section PlainComm

variable {comm : CString} (plain : PlainComm comm)

include plain

theorem PlainComm.bytes_ne_nil : comm.bytes ≠ [] := by
  have nonempty := plain.nonempty
  intro empty
  simp [CString.length, empty] at nonempty

theorem PlainComm.copiedBytes_eq : copiedBytes comm.bytes aegisPathLen = comm.bytes := by
  have short : comm.bytes.length ≤ aegisPathLen - 1 := plain.fits.trans (by decide)
  exact List.take_of_length_le short

/-- The kernel reads the name as one line. -/
theorem PlainComm.lineOf_eq : lineOf comm.bytes aegisPathLen = comm := by
  have unstripped : stripNewlines comm.bytes = comm.bytes := by
    apply List.rdropWhile_eq_self_iff.mpr
    intro nonempty newline
    have printable := (plain.noBlank _ (List.getLast_mem nonempty)).1
    rcases Bool.or_eq_true _ _ ▸ newline with feed | carriage
    · exact printable (by rw [beq_iff_eq.mp feed]; decide)
    · exact printable (by rw [beq_iff_eq.mp carriage]; decide)
  rw [lineOf, plain.copiedBytes_eq, unstripped, CString.ofMemory_bytes]

theorem PlainComm.refusal_eq_none {env : ControlEnv} (delivers : Delivers env)
    (endpoint : Endpoint) (onStack : endpoint.allocates = false)
    (buffer : endpoint.bufLen = aegisPathLen) : refusal env endpoint comm.bytes = none := by
  have delivered : Delivered env endpoint := ⟨delivers.1, by simp [onStack], delivers.2⟩
  have accepted : endpoint.accepts comm.bytes.length = true := by
    have small : comm.bytes.length < aegisPathLen := lt_of_le_of_lt plain.fits (by decide)
    have nonempty : 0 < comm.bytes.length := plain.nonempty
    simp [Endpoint.accepts, onStack, buffer, small, nonempty]
  have length : (lineOf comm.bytes aegisPathLen).length ≠ 0 := by
    rw [plain.lineOf_eq]
    exact Nat.pos_iff_ne_zero.mp plain.nonempty
  rw [refusal_of_delivered delivered accepted, buffer, plain.copiedBytes_eq, if_neg comm.noNul,
    if_neg length]

theorem PlainComm.scanProc_conversions : ¬ (scanProc comm.bytes).conversions < 1 := by
  have scanned := sscanfWordInt_conversions_pos 15 plain.bytes_ne_nil 0
  rw [scanProc, plain.lineOf_eq]
  omega

/-- What the tool's write of the name does to the policy. -/
theorem PlainComm.add_policy (shash : Shash) {env : ControlEnv} (delivers : Delivers env)
    (policy : PolicyState) :
    (aectlWrite shash env .protectedProcsAdd comm.bytes policy).policy =
      { policy with
        procs := (aegisProtectProcessAdd env.kmallocEntry (some (scanProc comm.bytes).word)
          (scanProc comm.bytes).number policy.procs).list } := by
  have accepted := plain.refusal_eq_none delivers .protectedProcsAdd rfl rfl
  rw [aectlWrite_of_reads accepted (.addProc plain.scanProc_conversions)]
  rfl

theorem PlainComm.del_policy (shash : Shash) {env : ControlEnv} (delivers : Delivers env)
    (policy : PolicyState) :
    (aectlWrite shash env .protectedProcsDel comm.bytes policy).policy =
      { policy with
        procs := (aegisProtectProcessDel (some (scanProc comm.bytes).word)
          (scanProc comm.bytes).number policy.procs).list } := by
  have accepted := plain.refusal_eq_none delivers .protectedProcsDel rfl rfl
  rw [aectlWrite_of_reads accepted (.delProc plain.scanProc_conversions)]
  rfl

/-- The kernel also counts the byte 160 as a blank; no other byte of a plain
name is one. -/
theorem PlainComm.solid (noBreak : 160 ∉ comm.bytes) :
    ∀ byte ∈ comm.bytes, isSpace byte = false := by
  intro byte member
  obtain ⟨printable, noSpace⟩ := plain.noBlank byte member
  have different : byte ≠ 160 := fun same => noBreak (same ▸ member)
  simp only [isSpace, Bool.or_eq_false_iff, beq_eq_false_iff_ne]
  refine ⟨⟨?_, noSpace⟩, different⟩
  rw [← Bool.not_eq_true]
  simpa using printable

theorem PlainComm.scanProc_eq (noBreak : 160 ∉ comm.bytes) :
    scanProc comm.bytes = ⟨1, comm, 0⟩ := by
  rw [scanProc, plain.lineOf_eq]
  exact sscanfWordInt_of_word plain.bytes_ne_nil plain.fits (plain.solid noBreak) 0

omit plain in
theorem not_mem_of_scanProc_word (whole : (scanProc comm.bytes).word = comm) :
    160 ∉ comm.bytes := by
  intro member
  have solid := sscanfWordInt_word_solid 15 (lineOf comm.bytes aegisPathLen) 0 160 (by
    rw [← scanProc, whole]
    exact member)
  exact absurd solid (by decide)

end PlainComm

/-- An addition that leaves the list with a wanted new entry added that entry. -/
theorem procEntry_of_linkTail {kmalloc : Bool} {word comm : CString} {number pid : Int}
    {procs : ProcList} (wordFits : word.length < aegisCommLen) (fits : comm.length < aegisCommLen)
    (appended : (aegisProtectProcessAdd kmalloc (some word) number procs).list =
      procs.linkTail (procEntry comm pid)) :
    kmalloc = true ∧ word = comm ∧ number = pid := by
  have grown : procs ≠ procs.linkTail (procEntry comm pid) := fun same => by
    have lengths := congrArg (fun list : ProcList => list.entries.length) same
    simp at lengths
  unfold aegisProtectProcessAdd listAdd at appended
  cases answer : procs.admission aegisMaxProtectedProcs (procHit word number) with
  | full => exact absurd (by simpa [answer] using appended) grown
  | duplicate => exact absurd (by simpa [answer] using appended) grown
  | admitted =>
      cases kmalloc with
      | false => exact absurd (by simpa [answer] using appended) grown
      | true =>
          have entries : procs.linkTail (procEntry word number) =
              procs.linkTail (procEntry comm pid) := by simpa [answer] using appended
          have last := congrArg (fun list : ProcList => list.entries.getLast?) entries
          have entry : procEntry word number = procEntry comm pid := by simpa using last
          have texts := congrArg (fun entry => entry.comm.text) entry
          simp only [procEntry_comm_text_of_fits wordFits, procEntry_comm_text_of_fits fits]
            at texts
          exact ⟨rfl, texts, congrArg AegisProtectedProc.pid entry⟩

/-- The tool and the kernel agree on the process entry exactly when no process
id is given or it is zero, the entry can be allocated, and the name holds no
byte that only the kernel counts as a blank. -/
theorem toolAgrees_iff (shash : Shash) (addEnv delEnv : ControlEnv) (comm : CString)
    (pid : Option Int) (policy : PolicyState) (addDelivers : Delivers addEnv)
    (delDelivers : Delivers delEnv) (plain : PlainComm comm)
    (absent : policy.procs.listed (procHit comm (pid.getD 0)) = false)
    (room : policy.procs.count < aegisMaxProtectedProcs) :
    ToolAgrees shash addEnv delEnv comm pid policy ↔
      pid.getD 0 = 0 ∧ addEnv.kmallocEntry = true ∧ 160 ∉ comm.bytes := by
  have fits : comm.length < aegisCommLen := Nat.lt_succ_of_le plain.fits
  simp only [ToolAgrees, runAegisctl_proc_add, runAegisctl_proc_del,
    plain.add_policy shash addDelivers, plain.del_policy shash delDelivers]
  constructor
  · rintro ⟨added, -⟩
    have wordFits : (scanProc comm.bytes).word.length < aegisCommLen := (commOf comm.bytes).property
    obtain ⟨allocated, word, number⟩ :=
      procEntry_of_linkTail wordFits fits (congrArg PolicyState.procs added)
    have noBreak := not_mem_of_scanProc_word word
    rw [plain.scanProc_eq noBreak] at number
    exact ⟨number.symm, allocated, noBreak⟩
  · rintro ⟨zero, allocated, noBreak⟩
    rw [zero] at absent ⊢
    rw [plain.scanProc_eq noBreak, allocated]
    have admitted := Registry.admission_eq_admitted.mpr ⟨room, absent⟩
    have appended : (aegisProtectProcessAdd true (some comm) 0 policy.procs).list =
        policy.procs.linkTail (procEntry comm 0) := by
      simp [aegisProtectProcessAdd, listAdd, admitted]
    have hits : procHit comm 0 (procEntry comm 0) = true :=
      procHit_iff.mpr ⟨rfl, procEntry_comm_text_of_fits fits 0⟩
    have present : (policy.procs.linkTail (procEntry comm 0)).listed (procHit comm 0) = true :=
      Registry.listed_iff.mpr ⟨procEntry comm 0, by simp, hits⟩
    have removed : (aegisProtectProcessDel (some comm) 0
        (policy.procs.linkTail (procEntry comm 0))).list = policy.procs := by
      simp [aegisProtectProcessDel, listDel, present, Registry.unlinkFirst_linkTail absent hits]
    simp only [appended, removed, and_self]

theorem toolAgrees_nginx :
    ToolAgrees sha256Shash administrator administrator (.lit "nginx") none
      (boot (fun _ => true) (fun _ => true)) := by
  have plain : PlainComm (.lit "nginx") := ⟨by decide, by decide, by decide +kernel⟩
  exact (toolAgrees_iff sha256Shash administrator administrator (.lit "nginx") none
    (boot (fun _ => true) (fun _ => true)) ⟨rfl, rfl⟩ ⟨rfl, rfl⟩ plain (by decide +kernel)
    (by decide +kernel)).mpr ⟨rfl, rfl, by decide⟩

/-- `aegisctl proc-add mydaemon 1234` protects every process of that name. -/
theorem aegisctl_drops_pid :
    PlainComm (.lit "mydaemon") ∧
    (boot (fun _ => true) (fun _ => true)).procs.listed (procHit (.lit "mydaemon") 1234) = false ∧
    (runAegisctl sha256Shash administrator (procArguments "proc-add" (.lit "mydaemon") (some 1234))
      (boot (fun _ => true) (fun _ => true))).procs =
        (boot (fun _ => true) (fun _ => true)).procs.linkTail (procEntry (.lit "mydaemon") 0) ∧
    ¬ ToolAgrees sha256Shash administrator administrator (.lit "mydaemon") (some 1234)
      (boot (fun _ => true) (fun _ => true)) := by
  have stored : (runAegisctl sha256Shash administrator
      (procArguments "proc-add" (.lit "mydaemon") (some 1234))
      (boot (fun _ => true) (fun _ => true))).procs =
        (boot (fun _ => true) (fun _ => true)).procs.linkTail (procEntry (.lit "mydaemon") 0) := by
    decide +kernel
  refine ⟨⟨by decide, by decide, by decide +kernel⟩, by decide +kernel, stored, ?_⟩
  rintro ⟨added, -⟩
  have lists := stored.symm.trans (congrArg PolicyState.procs added)
  have pids := congrArg (fun list : ProcList => list.entries.map AegisProtectedProc.pid) lists
  exact absurd pids (by decide +kernel)

end Aegis.Tool
