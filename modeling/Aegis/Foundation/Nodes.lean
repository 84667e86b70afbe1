import Aegis.Foundation.CheckInsert
import Aegis.Foundation.Handles

/-!
Owns the memory of a registry whose entries are nodes. An `add` allocates a
node, fills it and links it later; a `del` unlinks the first node that is hit and
frees it; an exit unlinks and frees all nodes. Each section under the lock is one
step. Freeing a node that is not allocated is an error, and a step that would do
so cannot be taken.

In every interleaving, the allocated nodes are those that are linked and those
that an `add` holds before it links them, each once. So every call can finish,
and with no call in flight nothing is allocated but what is linked. Forgetting
the nodes leaves the registry with its calls.

Does not own: accesses to a node outside of the lock.
-/

namespace Aegis.Foundation

universe u

/-- A node is given by its handle and its fields; nothing writes to the fields
of a linked node. `memory` holds what is allocated. -/
structure Nodes (Entry : Type u) where
  memory : Handles Entry
  linked : List (Nat × Entry)
  count : Int

namespace Nodes

variable {Entry : Type u}

def empty : Nodes Entry := ⟨⟨[], 0⟩, [], 0⟩

def registry (nodes : Nodes Entry) : Registry Entry := ⟨nodes.linked.map Prod.snd, nodes.count⟩

def allocate (nodes : Nodes Entry) (entry : Entry) : Nodes Entry :=
  { nodes with memory := nodes.memory.create entry }

def link (nodes : Nodes Entry) (node : Nat × Entry) : Nodes Entry :=
  { nodes with linked := nodes.linked ++ [node], count := nodes.count + 1 }

/-- Unlink the first node that is hit, and free it. -/
def release (hit : Entry → Bool) (node : Nat × Entry) (nodes : Nodes Entry) :
    Option (Nodes Entry) :=
  (nodes.memory.remove node.1).map fun memory =>
    ⟨memory, nodes.linked.eraseP fun other => hit other.2, nodes.count - 1⟩

/-- The loop of an exit. -/
def freeAll (memory : Handles Entry) : List (Nat × Entry) → Option (Handles Entry)
  | [] => some memory
  | node :: rest => (memory.remove node.1).bind fun after => freeAll after rest

def exit (nodes : Nodes Entry) : Option (Nodes Entry) :=
  (freeAll nodes.memory nodes.linked).map fun memory => ⟨memory, [], 0⟩

theorem registry_listed (nodes : Nodes Entry) (hit : Entry → Bool) :
    nodes.registry.listed hit = (nodes.linked.find? fun node => hit node.2).isSome := by
  rw [Bool.eq_iff_iff, List.find?_isSome, registry, Registry.listed, List.any_map,
    List.any_eq_true]
  rfl

theorem registry_of_release {hit : Entry → Bool} {node : Nat × Entry} {nodes next : Nodes Entry}
    (released : nodes.release hit node = some next) :
    next.registry = nodes.registry.unlinkFirst hit := by
  obtain ⟨memory, -, rfl⟩ := Option.map_eq_some_iff.mp released
  simp only [registry, Registry.unlinkFirst, List.eraseP_map]
  rfl

end Nodes

/-! ### Calls -/

namespace ListCall

variable {Arg Key Held : Type u}

/-- What an `add` has filled and has yet to link. -/
def held : ListCall Arg Key Held → Option Held
  | .filled _ entry => some entry
  | _ => none

def isReturned : ListCall Arg Key Held → Bool
  | .addReturned _ _ => true
  | .delReturned _ _ => true
  | _ => false

def map {Other : Type u} (change : Held → Other) : ListCall Arg Key Held → ListCall Arg Key Other
  | .add arg => .add arg
  | .admitted arg key => .admitted arg key
  | .filled arg entry => .filled arg (change entry)
  | .addReturned arg result => .addReturned arg result
  | .del arg => .del arg
  | .delReturned arg result => .delReturned arg result

theorem held_of_isReturned {call : ListCall Arg Key Held} (returned : call.isReturned = true) :
    call.held = none := by
  cases call with
  | filled arg entry => cases returned
  | _ => rfl

theorem held_of_isEntry {call : ListCall Arg Key Held} (enters : call.isEntry = true) :
    call.held = none := by
  cases call with
  | filled arg entry => cases enters
  | _ => rfl

theorem isEntry_map {Other : Type u} (change : Held → Other) (call : ListCall Arg Key Held) :
    (call.map change).isEntry = call.isEntry := by
  cases call <;> rfl

end ListCall

/-- An `add` keeps the node it has filled. -/
abbrev NodeCall (Arg Key Entry : Type u) := ListCall Arg Key (Nat × Entry)

/-- The call without its node. -/
def NodeCall.forget {Arg Key Entry : Type u} (call : NodeCall Arg Key Entry) :
    ListCall Arg Key Entry :=
  ListCall.map Prod.snd call

abbrev NodePool (Arg Key Entry : Type u) := Pool (Nodes Entry) (NodeCall Arg Key Entry)

inductive NodeMove (Arg Key Payload Entry : Type u) where
  | call (move : Move (NodeCall Arg Key Entry) (Option Payload))
  | exit

namespace CallSpec

variable {Arg Key Payload Entry : Type u} (spec : CallSpec Arg Key Payload Entry)

def nodeProgram : Program (Nodes Entry) (NodeCall Arg Key Entry) (Option Payload) where
  entry := ListCall.isEntry
  advance _ nodes call payload :=
    match call with
    | .add arg => some (nodes, spec.checkSection nodes.registry arg)
    | .admitted arg key =>
        match payload with
        | none => some (nodes, .addReturned arg .noMemory)
        | some payload =>
            some (nodes.allocate (spec.make key payload),
              .filled arg (nodes.memory.next, spec.make key payload))
    | .filled arg node => some (nodes.link node, .addReturned arg .added)
    | .del arg =>
        match spec.delKey arg with
        | none => some (nodes, .delReturned arg .invalid)
        | some key =>
            match nodes.linked.find? fun node => spec.hit key node.2 with
            | none => some (nodes, .delReturned arg .absent)
            | some node =>
                (nodes.release (spec.hit key) node).map fun after =>
                  (after, .delReturned arg .removed)
    | .addReturned _ _ => none
    | .delReturned _ _ => none

/-- All interleavings of calls and exits. -/
def nodeMachine : Machine (NodePool Arg Key Entry) (NodeMove Arg Key Payload Entry) where
  step pool
    | .call move => spec.nodeProgram.machine.step pool move
    | .exit => pool.shared.exit.map fun nodes => ⟨nodes, pool.calls⟩

/-- The same on the registry, where an exit empties it. -/
def registryMachine : Machine (CallPool Arg Key Entry)
    (Option (Move (ListCall Arg Key Entry) (Option Payload))) where
  step pool
    | some move => spec.program.machine.step pool move
    | none => some ⟨Registry.empty, pool.calls⟩

end CallSpec

/-! ### What is allocated -/

section Checks

variable {Arg Key Payload Entry Held : Type u} (spec : CallSpec Arg Key Payload Entry)

theorem CallSpec.held_checkSection (registry : Registry Entry) (arg : Arg) :
    (spec.checkSection registry arg : ListCall Arg Key Held).held = none := by
  cases keyed : spec.addKey arg with
  | none => simp [checkSection, keyed, ListCall.held]
  | some key =>
      cases answer : registry.admission spec.max (spec.hit key) <;>
        simp [checkSection, keyed, answer, ListCall.held]

theorem CallSpec.map_checkSection {Other : Type u} (change : Held → Other)
    (registry : Registry Entry) (arg : Arg) :
    (spec.checkSection registry arg).map change = spec.checkSection registry arg := by
  cases keyed : spec.addKey arg with
  | none => simp [checkSection, keyed, ListCall.map]
  | some key =>
      cases answer : registry.admission spec.max (spec.hit key) <;>
        simp [checkSection, keyed, answer, ListCall.map]

end Checks

namespace Handles

variable {Label : Type u} {handles : Handles Label}

theorem Valid.create (valid : handles.Valid) (label : Label) : (handles.create label).Valid :=
  (Beyond.create ⟨valid, List.append_nil _ |>.symm⟩ label).valid

/-- Removing an object leaves the others. -/
theorem Valid.remove (valid : handles.Valid) {object : Nat × Label} {rest : List (Nat × Label)}
    (holds : handles.entries.Perm (object :: rest)) :
    ∃ after, handles.remove object.1 = some after ∧ after.Valid ∧ after.entries.Perm rest := by
  have distinct : (object.1 :: rest.map Prod.fst).Nodup :=
    (holds.map Prod.fst).nodup_iff.mp valid.distinct
  have present : object.1 ∈ handles.entries.map Prod.fst :=
    List.mem_map_of_mem (holds.mem_iff.mpr List.mem_cons_self)
  refine ⟨_, if_pos present, ⟨?_, ?_⟩, ?_⟩
  · exact valid.distinct.sublist (List.filter_sublist.map Prod.fst)
  · exact fun entry member => valid.below entry (List.mem_filter.mp member).1
  · have others : rest.filter (fun entry => entry.1 ≠ object.1) = rest := by
      apply List.filter_eq_self.mpr
      intro entry member
      have apart := (List.nodup_cons.mp distinct).1
      simp only [decide_eq_true_eq]
      intro same
      exact apart (same ▸ List.mem_map_of_mem member)
    have filtered := holds.filter fun entry => decide (entry.1 ≠ object.1)
    rw [List.filter_cons_of_neg (by simp), others] at filtered
    exact filtered

end Handles

/-- The loop of an exit frees the linked nodes and no others. -/
theorem Nodes.freeAll_eq_some {Entry : Type u} {memory : Handles Entry} (valid : memory.Valid)
    {linked others : List (Nat × Entry)} (holds : memory.entries.Perm (linked ++ others)) :
    ∃ after, Nodes.freeAll memory linked = some after ∧ after.Valid ∧
      after.entries.Perm others := by
  induction linked generalizing memory with
  | nil => exact ⟨memory, rfl, valid, holds⟩
  | cons node rest inductionHypothesis =>
      obtain ⟨after, removed, stillValid, remains⟩ := valid.remove holds
      obtain ⟨final, freed, finalValid, left⟩ := inductionHypothesis stillValid remains
      exact ⟨final, by rw [Nodes.freeAll, removed]; exact freed, finalValid, left⟩

namespace CallSpec

variable {Arg Key Payload Entry : Type u} {spec : CallSpec Arg Key Payload Entry}

/-- The steps by what they do to the nodes. -/
inductive NodeStep (nodes : Nodes Entry) :
    NodeCall Arg Key Entry → Nodes Entry → NodeCall Arg Key Entry → Prop where
  | idle {call after} (before : call.held = none) (later : after.held = none) :
      NodeStep nodes call nodes after
  | allocate (arg : Arg) (key : Key) (entry : Entry) :
      NodeStep nodes (.admitted arg key) (nodes.allocate entry)
        (.filled arg (nodes.memory.next, entry))
  | link (arg : Arg) (node : Nat × Entry) :
      NodeStep nodes (.filled arg node) (nodes.link node) (.addReturned arg .added)
  | release (arg : Arg) {hit : Entry → Bool} {node : Nat × Entry} {next : Nodes Entry}
      (target : nodes.linked.find? (fun other => hit other.2) = some node)
      (released : nodes.release hit node = some next) :
      NodeStep nodes (.del arg) next (.delReturned arg .removed)

theorem nodeProgram_del {index : Nat} {nodes next : Nodes Entry} {arg : Arg}
    {after : NodeCall Arg Key Entry} {payload : Option Payload}
    (advanced : spec.nodeProgram.advance index nodes (.del arg) payload = some (next, after)) :
    (spec.delKey arg = none ∧ next = nodes ∧ after = .delReturned arg .invalid) ∨
      ∃ key, spec.delKey arg = some key ∧
        ((nodes.linked.find? (fun node => spec.hit key node.2) = none ∧ next = nodes ∧
            after = .delReturned arg .absent) ∨
          ∃ node, nodes.linked.find? (fun node => spec.hit key node.2) = some node ∧
            nodes.release (spec.hit key) node = some next ∧
            after = .delReturned arg .removed) := by
  cases keyed : spec.delKey arg with
  | none =>
      simp only [nodeProgram, keyed] at advanced
      obtain ⟨rfl, rfl⟩ := Prod.mk.inj (Option.some.inj advanced)
      exact .inl ⟨rfl, rfl, rfl⟩
  | some key =>
      refine .inr ⟨key, rfl, ?_⟩
      cases target : nodes.linked.find? fun node => spec.hit key node.2 with
      | none =>
          simp only [nodeProgram, keyed, target] at advanced
          obtain ⟨rfl, rfl⟩ := Prod.mk.inj (Option.some.inj advanced)
          exact .inl ⟨rfl, rfl, rfl⟩
      | some node =>
          simp only [nodeProgram, keyed, target] at advanced
          obtain ⟨final, released, same⟩ := Option.map_eq_some_iff.mp advanced
          obtain ⟨rfl, rfl⟩ := Prod.mk.inj same
          exact .inr ⟨node, rfl, released, rfl⟩

theorem nodeProgram_step {index : Nat} {nodes next : Nodes Entry}
    {call after : NodeCall Arg Key Entry} {payload : Option Payload}
    (advanced : spec.nodeProgram.advance index nodes call payload = some (next, after)) :
    NodeStep nodes call next after := by
  cases call with
  | add arg =>
      obtain ⟨rfl, rfl⟩ := Prod.mk.inj (Option.some.inj advanced)
      exact .idle rfl (spec.held_checkSection _ arg)
  | admitted arg key =>
      cases payload with
      | none =>
          obtain ⟨rfl, rfl⟩ := Prod.mk.inj (Option.some.inj advanced)
          exact .idle rfl rfl
      | some payload =>
          obtain ⟨rfl, rfl⟩ := Prod.mk.inj (Option.some.inj advanced)
          exact .allocate arg key (spec.make key payload)
  | filled arg node =>
      obtain ⟨rfl, rfl⟩ := Prod.mk.inj (Option.some.inj advanced)
      exact .link arg node
  | del arg =>
      obtain ⟨-, rfl, rfl⟩ | ⟨key, -, ⟨-, rfl, rfl⟩ | ⟨node, target, released, rfl⟩⟩ :=
        nodeProgram_del advanced
      · exact .idle rfl rfl
      · exact .idle rfl rfl
      · exact .release arg target released
  | addReturned arg result => cases advanced
  | delReturned arg result => cases advanced

/-- What is allocated is linked or held by one `add`, and the stored length is
right. -/
structure Accounted (pool : NodePool Arg Key Entry) : Prop where
  valid : pool.shared.memory.Valid
  owned : pool.shared.memory.entries.Perm
    (pool.shared.linked ++ pool.calls.filterMap ListCall.held)
  counted : pool.shared.count = pool.shared.linked.length

theorem accounted_start : Accounted (Pool.start Nodes.empty : NodePool Arg Key Entry) where
  valid := ⟨List.nodup_nil, fun _ member => absurd member List.not_mem_nil⟩
  owned := List.Perm.refl _
  counted := rfl

/-- The node that a search finds comes off its list. -/
theorem perm_eraseP_of_find? {Node : Type u} {hit : Node → Bool} {nodes : List Node} {node : Node}
    (target : nodes.find? hit = some node) :
    nodes.Perm (node :: nodes.eraseP hit) := by
  obtain ⟨matched, front, back, rfl, skipped⟩ := List.find?_eq_some_iff_append.mp target
  have unhit : ∀ other ∈ front, ¬ hit other = true := fun other member => by
    simpa using skipped other member
  rw [List.eraseP_append_right _ unhit, List.eraseP_cons_of_pos matched]
  exact List.perm_middle

theorem NodeStep.accounted {nodes next : Nodes Entry} {calls : List (NodeCall Arg Key Entry)}
    {call after : NodeCall Arg Key Entry} {index : Nat} (step : NodeStep nodes call next after)
    (found : calls[index]? = some call) (accounted : Accounted ⟨nodes, calls⟩) :
    Accounted ⟨next, calls.set index after⟩ := by
  obtain ⟨valid, owned, counted⟩ := accounted
  obtain ⟨rest, before, later⟩ := Pool.exists_filterMap_rest ListCall.held found
  have mine := owned.trans (before.append_left _)
  cases step with
  | idle none alsoNone =>
      refine ⟨valid, ?_, counted⟩
      rw [none] at mine
      have unchanged := later after
      rw [alsoNone] at unchanged
      exact mine.trans (unchanged.symm.append_left _)
  | allocate arg key entry =>
      refine ⟨valid.create entry, ?_, counted⟩
      have grown : (nodes.memory.entries ++ [(nodes.memory.next, entry)]).Perm
          (nodes.linked ++ ([(nodes.memory.next, entry)] ++ rest)) := by
        have moved := (mine.append_right [(nodes.memory.next, entry)])
        refine moved.trans ?_
        rw [List.append_assoc]
        exact (List.perm_append_comm).append_left _
      have exchanged := (later (.filled arg (nodes.memory.next, entry))).symm
      exact grown.trans (exchanged.append_left nodes.linked)
  | link arg node =>
      refine ⟨valid, ?_, ?_⟩
      · have moved : nodes.memory.entries.Perm ((nodes.linked ++ [node]) ++ rest) := by
          rw [List.append_assoc]
          exact mine
        have exchanged := (later (.addReturned arg .added)).symm
        exact moved.trans (exchanged.append_left (nodes.linked ++ [node]))
      · have stored : nodes.count = nodes.linked.length := counted
        simp [Nodes.link, stored]
  | release arg target released =>
      obtain ⟨memory, removed, rfl⟩ := Option.map_eq_some_iff.mp released
      have found := perm_eraseP_of_find? target
      have first := mine.trans (found.append_right _)
      obtain ⟨final, removes, stillValid, remains⟩ := valid.remove first
      obtain rfl : final = memory := Option.some.inj (removes.symm.trans removed)
      have exchanged := (later (.delReturned arg .removed)).symm
      refine ⟨stillValid, remains.trans (exchanged.append_left _), ?_⟩
      have length := found.length_eq
      have stored : nodes.count = nodes.linked.length := counted
      simp only [List.length_cons] at length
      simp only [stored]
      omega

theorem keeps_accounted : spec.nodeMachine.Keeps Accounted := by
  intro pool move next _ accounted stepped
  cases move with
  | call move =>
      rcases Program.machine_step_cases stepped with
        ⟨call, rfl, enters, rfl⟩ | ⟨index, choice, call, shared, after, rfl, found, advanced, rfl⟩
      · have idle := ListCall.held_of_isEntry enters
        refine ⟨accounted.valid, ?_, accounted.counted⟩
        simpa [idle] using accounted.owned
      · exact (nodeProgram_step advanced).accounted found accounted
  | exit =>
      obtain ⟨nodes, left, rfl⟩ := Option.map_eq_some_iff.mp stepped
      obtain ⟨memory, freed, rfl⟩ := Option.map_eq_some_iff.mp left
      obtain ⟨final, frees, valid, remains⟩ := Nodes.freeAll_eq_some accounted.valid accounted.owned
      obtain rfl : final = memory := Option.some.inj (frees.symm.trans freed)
      exact ⟨valid, remains, rfl⟩

/-! ### Every call can finish -/

section Progress

variable {pool : NodePool Arg Key Entry}

/-- The node that a `del` frees is allocated. -/
theorem Accounted.release (accounted : Accounted pool) {hit : Entry → Bool} {node : Nat × Entry}
    (target : pool.shared.linked.find? (fun other => hit other.2) = some node) :
    ∃ nodes, pool.shared.release hit node = some nodes := by
  have first := accounted.owned.trans ((perm_eraseP_of_find? target).append_right _)
  obtain ⟨memory, removed, -, -⟩ := accounted.valid.remove first
  exact ⟨_, by rw [Nodes.release, removed]; rfl⟩

theorem Accounted.advances (accounted : Accounted pool) {index : Nat}
    {call : NodeCall Arg Key Entry} (found : pool.calls[index]? = some call)
    (running : call.isReturned = false) (payload : Option Payload) :
    ∃ next, spec.nodeMachine.step pool (.call (.advance index payload)) = some next := by
  have moves : ∃ result, spec.nodeProgram.advance index pool.shared call payload = some result := by
    cases call with
    | add arg => exact ⟨_, rfl⟩
    | admitted arg key =>
        cases payload with
        | none => exact ⟨_, rfl⟩
        | some payload => exact ⟨_, rfl⟩
    | filled arg node => exact ⟨_, rfl⟩
    | del arg =>
        simp only [nodeProgram]
        split
        · exact ⟨_, rfl⟩
        · split
          next => exact ⟨_, rfl⟩
          next target =>
            obtain ⟨nodes, released⟩ := accounted.release target
            exact ⟨_, by rw [released]; rfl⟩
    | addReturned arg result => cases running
    | delReturned arg result => cases running
  obtain ⟨result, advanced⟩ := moves
  exact ⟨_, by simp only [nodeMachine, Program.machine, found, Option.bind_some, advanced]; rfl⟩

/-- An exit frees everything but what an `add` holds. -/
theorem Accounted.exits (accounted : Accounted pool) :
    ∃ next, spec.nodeMachine.step pool .exit = some next ∧
      next.shared.memory.entries.Perm (pool.calls.filterMap ListCall.held) := by
  obtain ⟨memory, freed, -, remains⟩ := Nodes.freeAll_eq_some accounted.valid accounted.owned
  exact ⟨_, by simp only [nodeMachine, Nodes.exit, freed]; rfl, remains⟩

theorem Accounted.owned_of_returned (accounted : Accounted pool)
    (returned : ∀ call ∈ pool.calls, call.isReturned = true) :
    pool.shared.memory.entries.Perm pool.shared.linked := by
  have none : pool.calls.filterMap ListCall.held = [] :=
    List.filterMap_eq_nil_iff.mpr fun call member =>
      ListCall.held_of_isReturned (returned call member)
  have owned := accounted.owned
  rwa [none, List.append_nil] at owned

end Progress

/-! ### Forgetting the nodes -/

def forgetPool (pool : NodePool Arg Key Entry) : CallPool Arg Key Entry :=
  ⟨pool.shared.registry, pool.calls.map NodeCall.forget⟩

def forgetMove : NodeMove Arg Key Payload Entry →
    Option (Move (ListCall Arg Key Entry) (Option Payload))
  | .call (.spawn call) => some (.spawn call.forget)
  | .call (.advance index payload) => some (.advance index payload)
  | .exit => none

theorem forget_advance {index : Nat} {nodes next : Nodes Entry}
    {call after : NodeCall Arg Key Entry} {payload : Option Payload}
    (advanced : spec.nodeProgram.advance index nodes call payload = some (next, after)) :
    spec.program.advance index nodes.registry call.forget payload =
      some (next.registry, after.forget) := by
  cases call with
  | add arg =>
      obtain ⟨rfl, rfl⟩ := Prod.mk.inj (Option.some.inj advanced)
      exact congrArg (fun checked => some (nodes.registry, checked))
        (spec.map_checkSection Prod.snd _ arg).symm
  | admitted arg key =>
      cases payload with
      | none =>
          obtain ⟨rfl, rfl⟩ := Prod.mk.inj (Option.some.inj advanced)
          rfl
      | some payload =>
          obtain ⟨rfl, rfl⟩ := Prod.mk.inj (Option.some.inj advanced)
          rfl
  | filled arg node =>
      obtain ⟨rfl, rfl⟩ := Prod.mk.inj (Option.some.inj advanced)
      simp [program, NodeCall.forget, ListCall.map, Nodes.link, Nodes.registry, Registry.linkTail]
  | del arg =>
      show some (spec.removeSection nodes.registry arg) = _
      obtain ⟨keyed, rfl, rfl⟩ | ⟨key, keyed, ⟨target, rfl, rfl⟩ | ⟨node, target, released, rfl⟩⟩ :=
        nodeProgram_del advanced
      · simp [removeSection, keyed, NodeCall.forget, ListCall.map]
      · simp [removeSection, keyed, Nodes.registry_listed, target, NodeCall.forget,
          ListCall.map]
      · simp [removeSection, keyed, Nodes.registry_listed, target,
          Nodes.registry_of_release released, NodeCall.forget, ListCall.map]
  | addReturned arg result => cases advanced
  | delReturned arg result => cases advanced

theorem forget_step {pool next : NodePool Arg Key Entry} {move : NodeMove Arg Key Payload Entry}
    (stepped : spec.nodeMachine.step pool move = some next) :
    spec.registryMachine.step (forgetPool pool) (forgetMove move) = some (forgetPool next) := by
  cases move with
  | call move =>
      rcases Program.machine_step_cases stepped with
        ⟨call, rfl, enters, rfl⟩ | ⟨index, choice, call, shared, after, rfl, found, advanced, rfl⟩
      · have alsoEnters : spec.program.entry call.forget = true :=
          (ListCall.isEntry_map Prod.snd call).trans enters
        simp [registryMachine, forgetMove, Program.machine, alsoEnters, forgetPool]
      · have same := forget_advance advanced
        simp [registryMachine, forgetMove, Program.machine, forgetPool, found, same]
  | exit =>
      obtain ⟨nodes, left, rfl⟩ := Option.map_eq_some_iff.mp stepped
      obtain ⟨memory, -, rfl⟩ := Option.map_eq_some_iff.mp left
      rfl

theorem forget_run {pool next : NodePool Arg Key Entry}
    {moves : List (NodeMove Arg Key Payload Entry)}
    (ran : spec.nodeMachine.run pool moves = some next) :
    spec.registryMachine.run (forgetPool pool) (moves.map forgetMove) = some (forgetPool next) := by
  induction moves generalizing pool with
  | nil =>
      obtain rfl : pool = next := Option.some.inj ran
      rfl
  | cons move rest inductionHypothesis =>
      obtain ⟨middle, stepped, later⟩ := spec.nodeMachine.run_cons_eq_some.mp ran
      exact spec.registryMachine.run_cons_eq_some.mpr
        ⟨_, forget_step stepped, inductionHypothesis later⟩

end CallSpec

end Aegis.Foundation
