import Peglib.Renaming
import Peglib.Totality

/-!
# Building a grammar

Transcription of what `Grammar.h` and `NonTerminal.h` offer for building a
grammar: get-or-create access, handles, assignments and aliases, actions, hooks,
labels and recovery, start rule and skipper, and the report of undefined rules.
A client only uses handles that it obtained. Rules are never removed, so that a
`NonTerminal` is known by the number of those created before it.
-/

namespace Peglib.GrammarBuilding

open Peglib.TracedComputation Peglib.Tandem
open Peglib.ParseError Peglib.ParseContext Peglib.Expressions Peglib.Rules Peglib.RuleGraph
open Peglib.ControlDiscipline Peglib.EngineSteps Peglib.EntryPoints Peglib.Termination
open Peglib.CommittedFailures Peglib.Refitting Peglib.Renaming Peglib.Totality

set_option autoImplicit false

/-- `Rule`: a pointer to a `NonTerminal` and the name it was obtained under. -/
structure Rule where
  impl : RuleId
  name : Str
deriving DecidableEq

/-- `RuleHandle`, which an assignment returns; `expr` stands for its type. -/
structure RuleHandle (CharT : Type) where
  impl : RuleId
  name : Str
  expr : Expr CharT

/-- A `NonTerminal`, and the expression type that its typed fold was made for. -/
structure Slot (CharT NodeType : Type) where
  nonTerminal : NonTerminal CharT NodeType := {}
  foldedAs : Option (Expr CharT) := none

/-- The members of a `Grammar`. `slots` are the `NonTerminal`s in the order of their creation,
`rules` is `m_rules` in the order of its keys. -/
structure Builder (CharT NodeType : Type) where
  slots : List (Slot CharT NodeType) := []
  rules : List (Str × RuleId) := []
  start : Str := []
  skipper : Option RuleId := none

/-- `try_emplace` of a `std::map`. -/
def tryEmplace (name : Str) (impl : RuleId) : List (Str × RuleId) → List (Str × RuleId)
  | [] => [(name, impl)]
  | entry :: rest =>
      if entry.1 < name then entry :: tryEmplace name impl rest
      else if entry.1 = name then entry :: rest
      else (name, impl) :: entry :: rest

variable {CharT NodeType : Type}

namespace Builder

variable (builder : Builder CharT NodeType)

def slot (impl : RuleId) : Slot CharT NodeType := builder.slots[impl]?.getD {}

def modify (impl : RuleId) (change : Slot CharT NodeType → Slot CharT NodeType) :
    Builder CharT NodeType :=
  { builder with slots := builder.slots.modify impl change }

def isDefined (impl : RuleId) : Bool := (builder.slot impl).nonTerminal.body.isSome

/-- `m_rules.find`. -/
def lookup (name : Str) : Option RuleId :=
  (builder.rules.find? fun entry => entry.1 == name).map Prod.snd

def create (name : Str) : Builder CharT NodeType :=
  { builder with
    slots := builder.slots ++ [{}]
    rules := tryEmplace name builder.slots.length builder.rules }

/-- `operator[]`. -/
def access (name : Str) : Rule × Builder CharT NodeType :=
  match builder.lookup name with
  | some impl => (⟨impl, name⟩, builder)
  | none => (⟨builder.slots.length, name⟩, builder.create name)

def find (name : Str) : Option Rule := (builder.lookup name).map fun impl => ⟨impl, name⟩

def hasRule (name : Str) : Bool := (builder.lookup name).isSome

def ruleNames : List Str := builder.rules.map Prod.fst

/-- `Rule::operator=`, for an expression that is no rule of its own. -/
def assign (target : Rule) (expr : Expr CharT) : RuleHandle CharT × Builder CharT NodeType :=
  (⟨target.impl, target.name, expr⟩,
    builder.modify target.impl fun slot =>
      { slot with nonTerminal :=
          { slot.nonTerminal with body := some expr, name := target.name } })

/-- `Rule::operator=(Rule)`: an alias, unless both sides are one object. -/
def assignRule (target source : Rule) (same : Bool) : RuleHandle CharT × Builder CharT NodeType :=
  if same then (⟨target.impl, target.name, .rule source.impl⟩, builder)
  else builder.assign target (.rule source.impl)

/-- `RuleHandle::set_action`. -/
def setAction (handle : RuleHandle CharT) (action : Action CharT NodeType) : Builder CharT NodeType :=
  builder.modify handle.impl fun slot =>
    { nonTerminal := { slot.nonTerminal with typedFold := some action }
      foldedAs := some handle.expr }

/-- `on_match`; `hook` is whether one is set or the empty function passed. -/
def onMatch (target : Rule) (hook : Bool) : Builder CharT NodeType :=
  builder.modify target.impl fun slot =>
    { slot with nonTerminal := { slot.nonTerminal with onMatch := hook } }

def setLabel (target : Rule) (label : Str) : Builder CharT NodeType :=
  builder.modify target.impl fun slot =>
    { slot with nonTerminal := { slot.nonTerminal with label := label } }

def setRecovery (target : Rule) (spec : RecoverSpec CharT) : Builder CharT NodeType :=
  builder.modify target.impl fun slot =>
    { slot with nonTerminal := { slot.nonTerminal with recover := spec } }

def setStart (name : Str) : Builder CharT NodeType := { builder with start := name }

def setSkipper (target : Rule) : Except Str (Builder CharT NodeType) :=
  if builder.isDefined target.impl then .ok { builder with skipper := some target.impl }
  else .error (ascii "Grammar::set_skipper: rule is not defined")

def clearSkipper : Builder CharT NodeType := { builder with skipper := none }

def undefinedRules : List Str :=
  (builder.rules.filter fun entry => !builder.isDefined entry.2).map Prod.fst

/-- Where a `NonTerminal` stands in `m_rules`. -/
def position (impl : RuleId) : RuleId := (builder.rules.map Prod.snd).idxOf impl

/-- The grammar as the parser sees it, with the rules in the order of `m_rules`. -/
def grammar : Grammar CharT NodeType where
  rules := builder.rules.map fun entry =>
    (entry.1, renameRule builder.position (builder.slot entry.2).nonTerminal)
  start := builder.start
  skipper := builder.skipper.map builder.position

end Builder

/-- A grammar under construction and the handles at hand. -/
structure Client (CharT NodeType : Type) where
  builder : Builder CharT NodeType := {}
  held : List Rule := []
  typed : List (RuleHandle CharT) := []

inductive Command (CharT NodeType : Type) where
  | access (name : Str)
  | find (name : Str)
  | assign (target : Rule) (expr : Expr CharT)
  | assignRule (target source : Rule) (same : Bool)
  | setAction (handle : RuleHandle CharT) (action : Action CharT NodeType)
  | onMatch (target : Rule) (hook : Bool)
  | setLabel (target : Rule) (label : Str)
  | setRecovery (target : Rule) (spec : RecoverSpec CharT)
  | setStart (name : Str)
  | setSkipper (target : Rule)
  | clearSkipper

namespace Command

/-- What a call does; a call that throws changes nothing. -/
def perform (client : Client CharT NodeType) :
    Command CharT NodeType → Except Str (Client CharT NodeType)
  | .access name =>
      let made := client.builder.access name
      .ok { client with builder := made.2, held := made.1 :: client.held }
  | .find name =>
      .ok { client with held := (client.builder.find name).toList ++ client.held }
  | .assign target expr =>
      let made := client.builder.assign target expr
      .ok { client with builder := made.2, typed := made.1 :: client.typed }
  | .assignRule target source same =>
      let made := client.builder.assignRule target source same
      .ok { client with builder := made.2, typed := made.1 :: client.typed }
  | .setAction handle action => .ok { client with builder := client.builder.setAction handle action }
  | .onMatch target hook => .ok { client with builder := client.builder.onMatch target hook }
  | .setLabel target label => .ok { client with builder := client.builder.setLabel target label }
  | .setRecovery target spec => .ok { client with builder := client.builder.setRecovery target spec }
  | .setStart name => .ok { client with builder := client.builder.setStart name }
  | .setSkipper target =>
      (client.builder.setSkipper target).map fun builder => { client with builder := builder }
  | .clearSkipper => .ok { client with builder := client.builder.clearSkipper }

/-- The call uses handles of the client only. -/
def Legal (client : Client CharT NodeType) : Command CharT NodeType → Prop
  | .assign target expr =>
      target ∈ client.held ∧ ∀ id, Mentions id expr → ∃ rule ∈ client.held, rule.impl = id
  | .assignRule target source _ => target ∈ client.held ∧ source ∈ client.held
  | .setAction handle _ => handle ∈ client.typed
  | .onMatch target _ | .setLabel target _ | .setRecovery target _ | .setSkipper target =>
      target ∈ client.held
  | .access _ | .find _ | .setStart _ | .clearSkipper => True

end Command

def Step (client client' : Client CharT NodeType) : Prop :=
  ∃ command : Command CharT NodeType, command.Legal client ∧ command.perform client = .ok client'

abbrev Steps : Client CharT NodeType → Client CharT NodeType → Prop := Relation.ReflTransGen Step

section Entries

variable {entries : List (Str × RuleId)} {name : Str} {impl : RuleId}

theorem try_emplace_names (name : Str) (impl : RuleId) (entries : List (Str × RuleId)) :
    (tryEmplace name impl entries).map Prod.fst = insertName name (entries.map Prod.fst) := by
  induction entries with
  | nil => simp [tryEmplace, insertName]
  | cons entry rest induction =>
      unfold tryEmplace insertName
      simp only [List.map_cons]
      split_ifs <;> simp [induction]

theorem try_emplace_perm (new : name ∉ entries.map Prod.fst) :
    (tryEmplace name impl entries).Perm ((name, impl) :: entries) := by
  induction entries with
  | nil => simp [tryEmplace]
  | cons entry rest induction =>
      have different : entry.1 ≠ name := fun same => new (by simp [same])
      have others := induction fun member => new (by simp [member])
      unfold tryEmplace
      by_cases less : entry.1 < name
      · simp only [less, if_true]
        exact (others.cons entry).trans (List.Perm.swap _ _ _)
      · simp [less, different]

theorem names_nodup (ascending : (entries.map Prod.fst).Pairwise (· < ·)) :
    (entries.map Prod.fst).Nodup :=
  ascending.imp fun less same => absurd (same ▸ less) (List.lt_irrefl _)

theorem find_entry_iff (distinct : (entries.map Prod.fst).Nodup) :
    (entries.find? fun entry => entry.1 == name).map Prod.snd = some impl ↔ (name, impl) ∈ entries := by
  induction entries with
  | nil => simp
  | cons entry rest induction =>
      rw [List.map_cons, List.nodup_cons] at distinct
      rw [List.find?_cons, List.mem_cons]
      by_cases same : entry.1 = name
      · have absent : (name, impl) ∉ rest := fun member =>
          distinct.1 (List.mem_map.mpr ⟨(name, impl), member, same.symm⟩)
        simp [same, absent, Prod.ext_iff, eq_comm]
      · have other : (name, impl) ≠ entry := fun equal => same (equal ▸ rfl)
        have unequal : (entry.1 == name) = false := by simpa using same
        rw [unequal, induction distinct.2]
        simp [other]

end Entries

section Slots

variable {builder : Builder CharT NodeType} {impl other : RuleId}

theorem slot_modify (change : Slot CharT NodeType → Slot CharT NodeType) :
    (builder.modify impl change).slot other =
      if impl = other ∧ other < builder.slots.length then change (builder.slot other)
      else builder.slot other := by
  unfold Builder.slot Builder.modify
  rw [List.getElem?_modify]
  by_cases inside : other < builder.slots.length
  · by_cases same : impl = other <;> simp [same, inside]
  · simp [inside]

theorem slots_modify_length (change : Slot CharT NodeType → Slot CharT NodeType) :
    (builder.modify impl change).slots.length = builder.slots.length := by
  simp [Builder.modify]

end Slots

/-- A rule is named by its key once it is defined, and mentions rules that exist. -/
structure SlotSound (name : Str) (size : Nat) (slot : Slot CharT NodeType) : Prop where
  named : slot.nonTerminal.name = if slot.nonTerminal.body.isSome then name else []
  closed : ∀ body, slot.nonTerminal.body = some body → ∀ id, Mentions id body → id < size

/-- What holds of a grammar at any point of its construction. -/
structure Sound (client : Client CharT NodeType) : Prop where
  ascending : client.builder.ruleNames.Pairwise (· < ·)
  pointers : (client.builder.rules.map Prod.snd).Perm (List.range client.builder.slots.length)
  slots : ∀ name impl, (name, impl) ∈ client.builder.rules →
    SlotSound name client.builder.slots.length (client.builder.slot impl)
  held : ∀ rule ∈ client.held, (rule.name, rule.impl) ∈ client.builder.rules
  typed : ∀ handle ∈ client.typed, (handle.name, handle.impl) ∈ client.builder.rules
  skipper : ∀ impl, client.builder.skipper = some impl →
    impl < client.builder.slots.length ∧ client.builder.isDefined impl = true

/-- Names keep their rules, and rules stay defined. -/
structure Extends (before after : Builder CharT NodeType) : Prop where
  rules : ∀ name impl, before.lookup name = some impl → after.lookup name = some impl
  defined : ∀ impl, before.isDefined impl = true → after.isDefined impl = true

theorem Extends.refl (builder : Builder CharT NodeType) : Extends builder builder :=
  ⟨fun _ _ found => found, fun _ defined => defined⟩

theorem Extends.trans {first second third : Builder CharT NodeType} (left : Extends first second)
    (right : Extends second third) : Extends first third :=
  ⟨fun name impl found => right.rules name impl (left.rules name impl found),
    fun impl defined => right.defined impl (left.defined impl defined)⟩

section Steps

variable {client : Client CharT NodeType}

theorem fresh_sound : Sound ({} : Client CharT NodeType) where
  ascending := List.Pairwise.nil
  pointers := by simp
  slots := by simp
  held := by simp
  typed := by simp
  skipper := by simp

theorem Sound.lookup_iff (sound : Sound client) {name : Str} {impl : RuleId} :
    client.builder.lookup name = some impl ↔ (name, impl) ∈ client.builder.rules :=
  find_entry_iff (names_nodup sound.ascending)

theorem Sound.inside_iff (sound : Sound client) {impl : RuleId} :
    impl < client.builder.slots.length ↔ ∃ name, (name, impl) ∈ client.builder.rules := by
  rw [← List.mem_range, ← sound.pointers.mem_iff]
  simp

theorem SlotSound.larger {name : Str} {size size' : Nat} {slot : Slot CharT NodeType}
    (sound : SlotSound name size slot) (more : size ≤ size') : SlotSound name size' slot :=
  ⟨sound.named, fun body assigned id mentions => (sound.closed body assigned id mentions).trans_le more⟩

theorem Sound.holding (sound : Sound client) {rules : List Rule}
    (there : ∀ rule ∈ rules, (rule.name, rule.impl) ∈ client.builder.rules) :
    Sound { client with held := rules ++ client.held } :=
  { sound with
    held := by
      intro rule member
      rcases List.mem_append.mp member with new | old
      · exact there rule new
      · exact sound.held rule old }

theorem Sound.typing (sound : Sound client) {handle : RuleHandle CharT}
    (there : (handle.name, handle.impl) ∈ client.builder.rules) :
    Sound { client with typed := handle :: client.typed } :=
  { sound with typed := List.forall_mem_cons.mpr ⟨there, sound.typed⟩ }

theorem slot_create {name : Str} {impl : RuleId} (inside : impl < client.builder.slots.length) :
    (client.builder.create name).slot impl = client.builder.slot impl := by
  unfold Builder.slot Builder.create
  rw [List.getElem?_append_left inside]

theorem slots_create_length {name : Str} :
    (client.builder.create name).slots.length = client.builder.slots.length + 1 := by
  simp [Builder.create]

theorem Sound.absent (sound : Sound client) {name : Str} (new : client.builder.lookup name = none) :
    name ∉ client.builder.rules.map Prod.fst := by
  intro member
  obtain ⟨entry, inside, rfl⟩ := List.mem_map.mp member
  rw [sound.lookup_iff.mpr inside] at new
  cases new

theorem Sound.entries (sound : Sound client) {name : Str} (new : client.builder.lookup name = none) :
    (client.builder.create name).rules.Perm
      ((name, client.builder.slots.length) :: client.builder.rules) :=
  try_emplace_perm (sound.absent new)

theorem Sound.created (sound : Sound client) {name : Str} (new : client.builder.lookup name = none) :
    Sound { client with builder := client.builder.create name } := by
  have entries := sound.entries new
  refine ⟨?_, ?_, ?_, ?_, ?_, ?_⟩
  · change ((tryEmplace name client.builder.slots.length client.builder.rules).map Prod.fst).Pairwise _
    rw [try_emplace_names]
    exact insert_name_nodup sound.ascending
  · dsimp only
    rw [slots_create_length, List.range_succ]
    refine (entries.map Prod.snd).trans ?_
    exact (sound.pointers.cons _).trans (List.perm_append_singleton _ _).symm
  · intro key impl member
    dsimp only
    rw [slots_create_length]
    rcases List.mem_cons.mp (entries.mem_iff.mp member) with here | there
    · obtain ⟨rfl, rfl⟩ := Prod.mk.inj here
      constructor <;> simp [Builder.slot, Builder.create]
    · rw [slot_create (sound.inside_iff.mpr ⟨key, there⟩)]
      exact (sound.slots key impl there).larger (Nat.le_succ _)
  · exact fun rule member => entries.mem_iff.mpr (List.mem_cons_of_mem _ (sound.held rule member))
  · exact fun handle member => entries.mem_iff.mpr (List.mem_cons_of_mem _ (sound.typed handle member))
  · intro impl configured
    obtain ⟨inside, defined⟩ := sound.skipper impl configured
    dsimp only
    rw [slots_create_length, Builder.isDefined, slot_create inside]
    exact ⟨inside.trans (Nat.lt_succ_self _), defined⟩

theorem Sound.created_extends (sound : Sound client) {name : Str}
    (new : client.builder.lookup name = none) :
    Extends client.builder (client.builder.create name) where
  rules other impl found := (sound.created new).lookup_iff.mpr
    ((sound.entries new).mem_iff.mpr (List.mem_cons_of_mem _ (sound.lookup_iff.mp found)))
  defined impl defined := by
    by_cases inside : impl < client.builder.slots.length
    · rw [Builder.isDefined, slot_create inside]
      exact defined
    · unfold Builder.isDefined Builder.slot at defined
      simp [inside] at defined

theorem Sound.modified (sound : Sound client) {name : Str} {impl : RuleId}
    (registered : (name, impl) ∈ client.builder.rules)
    {change : Slot CharT NodeType → Slot CharT NodeType}
    (kept : SlotSound name client.builder.slots.length (client.builder.slot impl) →
      SlotSound name client.builder.slots.length (change (client.builder.slot impl)))
    (stays : ∀ slot : Slot CharT NodeType, slot.nonTerminal.body.isSome = true →
      (change slot).nonTerminal.body.isSome = true) :
    Sound { client with builder := client.builder.modify impl change } := by
  refine { sound with pointers := ?_, slots := ?_, skipper := ?_ }
  · dsimp only
    rw [slots_modify_length]
    exact sound.pointers
  · intro key other member
    dsimp only
    rw [slots_modify_length, slot_modify]
    split_ifs with same
    · obtain ⟨rfl, -⟩ := same
      have pair := List.inj_on_of_nodup_map (sound.pointers.nodup_iff.mpr List.nodup_range)
        member registered rfl
      obtain ⟨rfl, -⟩ := Prod.mk.inj pair
      exact kept (sound.slots key impl registered)
    · exact sound.slots key other member
  · intro other configured
    obtain ⟨inside, defined⟩ := sound.skipper other configured
    dsimp only
    rw [slots_modify_length, Builder.isDefined, slot_modify]
    refine ⟨inside, ?_⟩
    split_ifs
    · exact stays _ defined
    · exact defined

theorem modify_extends {impl : RuleId} {change : Slot CharT NodeType → Slot CharT NodeType}
    (stays : ∀ slot : Slot CharT NodeType, slot.nonTerminal.body.isSome = true →
      (change slot).nonTerminal.body.isSome = true) :
    Extends client.builder (client.builder.modify impl change) where
  rules _ _ found := found
  defined other defined := by
    rw [Builder.isDefined, slot_modify]
    split_ifs
    · exact stays _ defined
    · exact defined

theorem Sound.adjusted (sound : Sound client) {name : Str} {impl : RuleId}
    (registered : (name, impl) ∈ client.builder.rules)
    {change : Slot CharT NodeType → Slot CharT NodeType}
    (body : ∀ slot, (change slot).nonTerminal.body = slot.nonTerminal.body)
    (same : ∀ slot, (change slot).nonTerminal.name = slot.nonTerminal.name) :
    Sound { client with builder := client.builder.modify impl change } ∧
      Extends client.builder (client.builder.modify impl change) := by
  have stays : ∀ slot : Slot CharT NodeType, slot.nonTerminal.body.isSome = true →
      (change slot).nonTerminal.body.isSome = true := fun slot defined => by rwa [body slot]
  refine ⟨sound.modified registered (fun kept => ⟨?_, ?_⟩) stays, modify_extends stays⟩
  · rw [body, same]
    exact kept.named
  · rw [body]
    exact kept.closed

theorem Sound.assigned (sound : Sound client) {target : Rule} (held : target ∈ client.held)
    {expr : Expr CharT} (own : ∀ id, Mentions id expr → ∃ rule ∈ client.held, rule.impl = id) :
    Sound { client with
        builder := (client.builder.assign target expr).2
        typed := (client.builder.assign target expr).1 :: client.typed } ∧
      Extends client.builder (client.builder.assign target expr).2 := by
  have registered := sound.held target held
  have closed : ∀ id, Mentions id expr → id < client.builder.slots.length := by
    intro id mentions
    obtain ⟨rule, member, rfl⟩ := own id mentions
    exact sound.inside_iff.mpr ⟨rule.name, sound.held rule member⟩
  refine ⟨(sound.modified registered (fun _ => ⟨?_, ?_⟩) fun _ _ => rfl).typing registered,
    modify_extends fun _ _ => rfl⟩
  · simp
  · intro body assigned
    obtain rfl := Option.some.inj assigned
    exact closed

/-- One call of the client. -/
theorem step_sound {client' : Client CharT NodeType} (step : Step client client')
    (sound : Sound client) : Sound client' ∧ Extends client.builder client'.builder := by
  obtain ⟨command, legal, performed⟩ := step
  cases command with
  | access name =>
      obtain rfl := Except.ok.inj performed
      cases found : client.builder.lookup name with
      | some impl =>
          rw [Builder.access, found]
          refine ⟨@Sound.holding _ _ _ sound [⟨impl, name⟩] ?_, .refl _⟩
          simpa using sound.lookup_iff.mp found
      | none =>
          rw [Builder.access, found]
          refine ⟨@Sound.holding _ _ _ (sound.created found) [⟨client.builder.slots.length, name⟩] ?_,
            sound.created_extends found⟩
          simpa using (sound.entries found).mem_iff.mpr (by simp)
  | find name =>
      obtain rfl := Except.ok.inj performed
      refine ⟨sound.holding fun rule member => ?_, .refl _⟩
      obtain ⟨impl, found, rfl⟩ := Option.map_eq_some_iff.mp (Option.mem_toList.mp member)
      exact sound.lookup_iff.mp found
  | assign target expr =>
      obtain rfl := Except.ok.inj performed
      exact sound.assigned legal.1 legal.2
  | assignRule target source same =>
      obtain rfl := Except.ok.inj performed
      cases same with
      | true => exact ⟨sound.typing (sound.held target legal.1), .refl _⟩
      | false =>
          refine sound.assigned legal.1 fun id mentions => ⟨source, legal.2, ?_⟩
          cases mentions
          rfl
  | setAction handle action =>
      obtain rfl := Except.ok.inj performed
      exact sound.adjusted (sound.typed handle legal) (fun _ => rfl) fun _ => rfl
  | onMatch target hook =>
      obtain rfl := Except.ok.inj performed
      exact sound.adjusted (sound.held target legal) (fun _ => rfl) fun _ => rfl
  | setLabel target label =>
      obtain rfl := Except.ok.inj performed
      exact sound.adjusted (sound.held target legal) (fun _ => rfl) fun _ => rfl
  | setRecovery target spec =>
      obtain rfl := Except.ok.inj performed
      exact sound.adjusted (sound.held target legal) (fun _ => rfl) fun _ => rfl
  | setStart name =>
      obtain rfl := Except.ok.inj performed
      exact ⟨{ sound with }, ⟨fun _ _ found => found, fun _ defined => defined⟩⟩
  | setSkipper target =>
      change (client.builder.setSkipper target).map _ = _ at performed
      unfold Builder.setSkipper at performed
      by_cases defined : client.builder.isDefined target.impl = true
      · rw [if_pos defined] at performed
        obtain rfl := Except.ok.inj performed
        refine ⟨{ sound with skipper := fun impl configured => ?_ },
          ⟨fun _ _ found => found, fun _ defined => defined⟩⟩
        obtain rfl := Option.some.inj configured
        exact ⟨sound.inside_iff.mpr ⟨target.name, sound.held target legal⟩, defined⟩
      · rw [if_neg defined] at performed
        cases performed
  | clearSkipper =>
      obtain rfl := Except.ok.inj performed
      exact ⟨{ sound with skipper := by simp [Builder.clearSkipper] },
        ⟨fun _ _ found => found, fun _ defined => defined⟩⟩

theorem steps_sound {client' : Client CharT NodeType} (steps : Steps client client')
    (sound : Sound client) : Sound client' ∧ Extends client.builder client'.builder := by
  induction steps with
  | refl => exact ⟨sound, .refl _⟩
  | tail _ step induction =>
      obtain ⟨here, extends_⟩ := step_sound step induction.1
      exact ⟨here, induction.2.trans extends_⟩

end Steps

/-- The `NonTerminal`s as they were created, each under the name it is registered by. -/
def Builder.heap (builder : Builder CharT NodeType) : Grammar CharT NodeType where
  rules := (List.range builder.slots.length).map fun impl =>
    (((builder.rules.find? fun entry => entry.2 == impl).map Prod.fst).getD [],
      (builder.slot impl).nonTerminal)
  start := builder.start
  skipper := builder.skipper

theorem mentions_renamed {rename : RuleId → RuleId} {expr : Expr CharT} {id : RuleId}
    (mentions : Mentions id (renameExpr rename expr)) :
    ∃ old, Mentions old expr ∧ rename old = id := by
  have parts : ∀ children : List (Expr CharT),
      (∃ child ∈ renameAll rename children, Mentions id child) →
      ∃ child ∈ children, Mentions id (renameExpr rename child) := by
    intro children
    rw [rename_all_eq_map]
    simp
  induction expr using Expr.induct with
  | rule old =>
      unfold renameExpr at mentions
      cases mentions
      exact ⟨old, .rule, rfl⟩
  | sequence children induction =>
      unfold renameExpr at mentions
      cases mentions with
      | sequence member within =>
          obtain ⟨child, inside, here⟩ := parts children ⟨_, member, within⟩
          obtain ⟨old, mentioned, same⟩ := induction child inside here
          exact ⟨old, .sequence inside mentioned, same⟩
  | alternation children induction =>
      unfold renameExpr at mentions
      cases mentions with
      | alternation member within =>
          obtain ⟨child, inside, here⟩ := parts children ⟨_, member, within⟩
          obtain ⟨old, mentioned, same⟩ := induction child inside here
          exact ⟨old, .alternation inside mentioned, same⟩
  | repetition kind child induction =>
      unfold renameExpr at mentions
      cases mentions with
      | repetition within =>
          obtain ⟨old, mentioned, same⟩ := induction within
          exact ⟨old, .repetition mentioned, same⟩
  | not child induction =>
      unfold renameExpr at mentions
      cases mentions with
      | not within =>
          obtain ⟨old, mentioned, same⟩ := induction within
          exact ⟨old, .not mentioned, same⟩
  | and child induction =>
      unfold renameExpr at mentions
      cases mentions with
      | and within =>
          obtain ⟨old, mentioned, same⟩ := induction within
          exact ⟨old, .and mentioned, same⟩
  | lexeme child induction =>
      unfold renameExpr at mentions
      cases mentions with
      | lexeme within =>
          obtain ⟨old, mentioned, same⟩ := induction within
          exact ⟨old, .lexeme mentioned, same⟩
  | terminal _ | terminalSeq _ | token _ | matcher _ | empty | cut =>
      unfold renameExpr at mentions
      cases mentions

section Views

variable {client : Client CharT NodeType} {name : Str} {impl : RuleId}

theorem Sound.placed (sound : Sound client) (registered : (name, impl) ∈ client.builder.rules) :
    client.builder.rules[client.builder.position impl]? = some (name, impl) := by
  have member : impl ∈ client.builder.rules.map Prod.snd :=
    List.mem_map.mpr ⟨(name, impl), registered, rfl⟩
  have there := List.getElem?_idxOf member
  rw [List.getElem?_map, Option.map_eq_some_iff] at there
  obtain ⟨entry, held, same⟩ := there
  have one := List.inj_on_of_nodup_map (sound.pointers.nodup_iff.mpr List.nodup_range)
    (List.mem_of_getElem? held) registered same
  exact held.trans (congrArg some one)

theorem Sound.rule_at (sound : Sound client) (registered : (name, impl) ∈ client.builder.rules) :
    client.builder.grammar.rules[client.builder.position impl]? =
      some (name, renameRule client.builder.position (client.builder.slot impl).nonTerminal) := by
  simp [Builder.grammar, sound.placed registered]

theorem Sound.non_terminal_at (sound : Sound client) (registered : (name, impl) ∈ client.builder.rules) :
    client.builder.grammar.nonTerminal (client.builder.position impl) =
      renameRule client.builder.position (client.builder.slot impl).nonTerminal := by
  rw [Grammar.nonTerminal, sound.rule_at registered]
  rfl

theorem Sound.distinct (sound : Sound client) : DistinctKeys client.builder.grammar := by
  unfold DistinctKeys Builder.grammar
  simp only [List.map_map, Function.comp_def]
  exact names_nodup sound.ascending

theorem Sound.find_at (sound : Sound client) (registered : (name, impl) ∈ client.builder.rules) :
    client.builder.grammar.find name = some (client.builder.position impl) := by
  rw [find_iff sound.distinct, keyOf, sound.rule_at registered]
  rfl

theorem Sound.found_at (sound : Sound client) {start : RuleId}
    (found : client.builder.grammar.find name = some start) :
    ∃ impl, (name, impl) ∈ client.builder.rules ∧ start = client.builder.position impl := by
  have keyed := (find_iff sound.distinct).mp found
  have member := key_mem keyed
  simp only [Builder.grammar, List.map_map, List.mem_map, Function.comp_apply] at member
  obtain ⟨⟨key, impl⟩, registered, rfl⟩ := member
  exact ⟨impl, registered, Option.some.inj (found.symm.trans (sound.find_at registered))⟩

theorem Sound.not_found (sound : Sound client) (missing : client.builder.hasRule name = false) :
    client.builder.grammar.find name = none := by
  cases found : client.builder.grammar.find name with
  | none => rfl
  | some start =>
      obtain ⟨impl, registered, -⟩ := sound.found_at found
      rw [Builder.hasRule, sound.lookup_iff.mpr registered] at missing
      cases missing

theorem Sound.entered (sound : Sound client) {start rule : RuleId}
    (there : ∃ name impl, (name, impl) ∈ client.builder.rules ∧ start = client.builder.position impl)
    (entered : Enterable client.builder.grammar start rule) :
    ∃ name impl, (name, impl) ∈ client.builder.rules ∧ rule = client.builder.position impl := by
  have onward : ∀ origin other, (∃ name impl, (name, impl) ∈ client.builder.rules ∧
      origin = client.builder.position impl) → Reaches client.builder.grammar origin other →
      ∃ name impl, (name, impl) ∈ client.builder.rules ∧ other = client.builder.position impl := by
    intro origin other there reached
    induction reached with
    | refl => exact there
    | tail _ refers induction =>
        obtain ⟨name, impl, registered, rfl⟩ := induction
        obtain ⟨body, assigned, mentions⟩ := refers
        rw [Grammar.body, sound.non_terminal_at registered] at assigned
        obtain ⟨written, defined, rfl⟩ := Option.map_eq_some_iff.mp assigned
        obtain ⟨old, mentioned, rfl⟩ := mentions_renamed mentions
        have inside := (sound.slots name impl registered).closed written defined old mentioned
        obtain ⟨key, target⟩ := sound.inside_iff.mp inside
        exact ⟨key, old, target, rfl⟩
  rcases entered with reached | ⟨skipper, configured, reached⟩
  · exact onward start rule there reached
  · obtain ⟨impl, chosen, rfl⟩ := Option.map_eq_some_iff.mp configured
    obtain ⟨key, target⟩ := sound.inside_iff.mp (sound.skipper impl chosen).1
    exact onward _ rule ⟨key, impl, target, rfl⟩ reached

theorem Sound.heap_rule (sound : Sound client) (registered : (name, impl) ∈ client.builder.rules) :
    client.builder.heap.rules[impl]? = some (name, (client.builder.slot impl).nonTerminal) := by
  have inside := sound.inside_iff.mpr ⟨name, registered⟩
  have named : client.builder.rules.find? (fun entry => entry.2 == impl) = some (name, impl) := by
    cases found : client.builder.rules.find? fun entry => entry.2 == impl with
    | none => exact absurd registered (by simpa using List.find?_eq_none.mp found (name, impl))
    | some entry =>
        have same : entry.2 = impl := by simpa using List.find?_some found
        exact congrArg some (List.inj_on_of_nodup_map (sound.pointers.nodup_iff.mpr List.nodup_range)
          (List.mem_of_find?_eq_some found) registered same)
  simp [Builder.heap, inside, named]

theorem Sound.heap_non_terminal (sound : Sound client) (inside : impl < client.builder.slots.length) :
    client.builder.heap.nonTerminal impl = (client.builder.slot impl).nonTerminal := by
  obtain ⟨name, registered⟩ := sound.inside_iff.mp inside
  rw [Grammar.nonTerminal, sound.heap_rule registered]
  rfl

theorem Sound.heap_find (sound : Sound client) (registered : (name, impl) ∈ client.builder.rules) :
    client.builder.heap.find name = some impl := by
  have held := sound.heap_rule registered
  obtain ⟨inside, same⟩ := List.getElem?_eq_some_iff.mp held
  refine List.findIdx?_eq_some_iff_getElem.mpr ⟨inside, by rw [same]; exact beq_self_eq_true _, ?_⟩
  intro earlier before
  have early : earlier < client.builder.heap.rules.length := before.trans inside
  obtain ⟨key, other⟩ := sound.inside_iff.mp
    (show earlier < client.builder.slots.length by simpa [Builder.heap] using early)
  have there := (List.getElem?_eq_some_iff.mp (sound.heap_rule other)).2
  rw [there]
  intro equal
  obtain rfl : key = name := by simpa using equal
  have one := (sound.lookup_iff.mpr other).symm.trans (sound.lookup_iff.mpr registered)
  exact Nat.ne_of_lt before (Option.some.inj one)

theorem Sound.apart (sound : Sound client) :
    KeepsApart (wholly client.builder.position fun impl => impl < client.builder.slots.length) := by
  intro impl other inside _
  obtain ⟨name, registered⟩ := sound.inside_iff.mp inside
  exact List.idxOf_inj (List.mem_map.mpr ⟨(name, impl), registered, rfl⟩)

/-- The rules by the order of their names are the rules by the order of their creation. -/
theorem Sound.embeds (sound : Sound client)
    (blind : ∀ impl body, (client.builder.slot impl).nonTerminal.body = some body →
      body.Every (FitBlind (wholly client.builder.position fun impl => impl < client.builder.slots.length))) :
    Embeds (wholly client.builder.position fun impl => impl < client.builder.slots.length)
      client.builder.heap client.builder.grammar where
  apart := sound.apart
  closed impl body inside assigned := by
    obtain ⟨name, registered⟩ := sound.inside_iff.mp inside
    rw [Grammar.body, sound.heap_non_terminal inside] at assigned
    exact confined_of_mentions ((sound.slots name impl registered).closed body assigned)
  rules impl inside := by
    obtain ⟨name, registered⟩ := sound.inside_iff.mp inside
    rw [sound.heap_non_terminal inside, sound.non_terminal_at registered]
    exact rename_rule_refit _ _
  matchers impl body inside assigned := by
    rw [Grammar.body, sound.heap_non_terminal inside] at assigned
    exact blind impl body assigned
  skipper := rfl
  skips impl configured := (sound.skipper impl configured).1

theorem undefined_rules_nil (validated : client.builder.undefinedRules = [])
    (registered : (name, impl) ∈ client.builder.rules) : client.builder.isDefined impl = true := by
  rw [Builder.undefinedRules, List.map_eq_nil_iff, List.filter_eq_nil_iff] at validated
  simpa using validated _ registered

end Views

section Results

variable [PegValue CharT] {client : Client CharT NodeType}

/-- The application of an unassigned rule. -/
theorem unassigned_asserts {grammar : Grammar CharT NodeType} {name : Str} {rule : RuleId}
    (found : grammar.find name = some rule) (plain : grammar.skipper = none)
    (bodiless : grammar.body rule = none) (fuel : Nat) (input : List CharT) :
    (grammar.parse (fuel + 1) name (Context.fresh input)).outcome = .thrown .assertion := by
  have skipped : grammar.leadingSkip (fuel + 1) (Context.fresh input) =
      ⟨.returned (), Context.fresh input, []⟩ := by
    unfold Grammar.leadingSkip
    rw [plain]
    rfl
  have applied : (grammar.apply (fuel + 1) rule (Context.fresh input)).outcome = .thrown .assertion := by
    rw [Grammar.apply, bodiless, Option.map_none, parse_miss _ _ _ rfl]
    rfl
  unfold Grammar.parse
  rw [found]
  dsimp only
  rw [Comp.bind_returned skipped]
  rcases run : grammar.apply (fuel + 1) rule (Context.fresh input) with ⟨outcome, last, log⟩
  obtain rfl : outcome = .thrown .assertion := by rw [run] at applied; exact applied
  unfold Comp.catching
  rw [Comp.bind_thrown run]
  rfl

/-- In a grammar that was built from handles, the report of undefined rules is exact: where it is
empty, a parse of any rule that ends answers or lets a `ParseError` pass, and a name that is not
registered is refused; a rule in the report trips the assertion on an unassigned body at once,
where no skipper is set. -/
theorem validation_exact (steps : Steps {} client) :
    (client.builder.undefinedRules = [] → ∀ fuel name (context : Context CharT),
      if client.builder.hasRule name = true then
        (client.builder.grammar.parse fuel name context).outcome ≠ .exhausted →
          (∃ answer, (client.builder.grammar.parse fuel name context).outcome = .returned answer) ∨
            Raised (client.builder.grammar.parse fuel name context).outcome
      else (client.builder.grammar.parse fuel name context).outcome =
        .thrown (Grammar.notFound (ascii "parse") name)) ∧
    ∀ name ∈ client.builder.undefinedRules, client.builder.skipper = none → ∀ fuel input,
      (client.builder.grammar.parse (fuel + 1) name (Context.fresh input)).outcome = .thrown .assertion := by
  have sound := (steps_sound steps fresh_sound).1
  refine ⟨fun validated fuel name context => ?_, fun name reported plain fuel input => ?_⟩
  · split_ifs with present
    · obtain ⟨impl, found⟩ := Option.isSome_iff_exists.mp present
      have registered := sound.lookup_iff.mp found
      rw [parse_boundary (sound.find_at registered)]
      refine boundary_answers (fun rule entered => ?_) fuel ParseResult.success false context
      obtain ⟨key, other, there, rfl⟩ := sound.entered ⟨name, impl, registered, rfl⟩ entered
      rw [Grammar.body, sound.non_terminal_at there]
      simpa [renameRule, Builder.isDefined] using undefined_rules_nil validated there
    · have missing := sound.not_found (Bool.eq_false_iff.mpr present)
      unfold Grammar.parse
      rw [missing]
      rfl
  · obtain ⟨entry, member, rfl⟩ := List.mem_map.mp reported
    obtain ⟨registered, undefined⟩ := List.mem_filter.mp member
    have bodiless : client.builder.grammar.body (client.builder.position entry.2) = none := by
      rw [Grammar.body, sound.non_terminal_at registered]
      simpa [renameRule, Builder.isDefined] using undefined
    refine unassigned_asserts (sound.find_at registered) ?_ bodiless fuel input
    rw [Builder.grammar, plain]
    rfl

/-- A `NonTerminal` is known by its address: parsing with the rules as they were created and with
the rules in the order of their names is the same, step by step. -/
theorem creation_order_immaterial (steps : Steps {} client)
    (blind : ∀ impl body, (client.builder.slot impl).nonTerminal.body = some body →
      body.Every (FitBlind (wholly client.builder.position fun impl => impl < client.builder.slots.length)))
    {name : Str} (present : client.builder.hasRule name = true) (fuel : Nat) (input : List CharT) :
    Together (Renamed client.builder.position fun impl => impl < client.builder.slots.length)
      (RenamedMoment client.builder.position fun impl => impl < client.builder.slots.length) Eq Eq
      (client.builder.heap.parse fuel name (Context.fresh input))
      (client.builder.grammar.parse fuel name (Context.fresh input)) := by
  have sound := (steps_sound steps fresh_sound).1
  obtain ⟨impl, found⟩ := Option.isSome_iff_exists.mp present
  have registered := sound.lookup_iff.mp found
  have alike := entry_corresponds (sound.embeds blind) (sound.inside_iff.mpr ⟨name, registered⟩)
    (sound.heap_find registered) (sound.find_at registered) fuel _ _ (fresh_refitted input)
  exact alike.weaken fun _ _ => exns_same

omit [PegValue CharT] in
/-- At any point of the construction the names are ascending and each stands for one rule, which is
named by it once it is defined and mentions rules of the grammar only; the skipper is defined. From
there on rules stay, and so does what a handle stands for. -/
theorem construction_sound {client' : Client CharT NodeType} (steps : Steps {} client)
    (later : Steps client client') :
    Sound client' ∧ Extends client.builder client'.builder ∧
      ∀ rule ∈ client.held, client'.builder.find rule.name = some rule := by
  have sound := (steps_sound steps fresh_sound).1
  obtain ⟨sound', extends_⟩ := steps_sound later sound
  refine ⟨sound', extends_, fun rule member => ?_⟩
  have found := extends_.rules rule.name rule.impl (sound.lookup_iff.mpr (sound.held rule member))
  rw [Builder.find, found]
  rfl

end Results

section Suffixes

def start : Rule := ⟨0, ascii "S"⟩

def letter : Rule := ⟨1, ascii "L"⟩

/-- `S >> 'x' | L`. -/
def suffixed : Expr UInt8 :=
  .alternation [.sequence [.rule start.impl, .terminal (.value 120)], .rule letter.impl]

def accessed : Client UInt8 Unit where
  builder := (Builder.create {} (ascii "S")).create (ascii "L")
  held := [letter, start]

/-- `g["S"] = g["S"] >> 'x' | g["L"]`, then `g["L"] = 'b'`. -/
def built : Client UInt8 Unit where
  builder := ((accessed.builder.assign start suffixed).2.assign letter (.terminal (.value 98))).2
  held := accessed.held
  typed := [⟨1, ascii "L", .terminal (.value 98)⟩, ⟨0, ascii "S", suffixed⟩]

theorem accessed_steps : Steps {} accessed :=
  (Relation.ReflTransGen.single ⟨.access (ascii "S"), trivial, rfl⟩).tail
    ⟨.access (ascii "L"), trivial, rfl⟩

theorem suffixed_own {id : RuleId} (mentions : Mentions id suffixed) :
    ∃ rule ∈ accessed.held, rule.impl = id := by
  cases mentions with
  | alternation branch mentions =>
      simp only [List.mem_cons, List.not_mem_nil, or_false] at branch
      rcases branch with rfl | rfl
      · cases mentions with
        | sequence part mentions =>
            simp only [List.mem_cons, List.not_mem_nil, or_false] at part
            rcases part with rfl | rfl
            · cases mentions
              exact ⟨start, by simp [accessed], rfl⟩
            · cases mentions
      · cases mentions
        exact ⟨letter, by simp [accessed], rfl⟩

theorem built_steps : Steps accessed built :=
  (Relation.ReflTransGen.single ⟨.assign start suffixed,
    ⟨by simp [accessed], fun _ mentions => suffixed_own mentions⟩, rfl⟩).tail
    ⟨.assign letter (.terminal (.value 98)), ⟨by simp [accessed], by rintro id ⟨⟩⟩, rfl⟩

/-- The map is in the order of its keys, and the handles of `S` and `L` stand for them. -/
theorem built_sound :
    built.builder.ruleNames = [ascii "L", ascii "S"] ∧
      Sound built ∧ Extends accessed.builder built.builder ∧
        ∀ rule ∈ accessed.held, built.builder.find rule.name = some rule :=
  ⟨by decide, construction_sound accessed_steps built_steps⟩

/-- Before the assignments both rules are reported and trip the assertion. -/
theorem accessed_reported :
    accessed.builder.undefinedRules = [ascii "L", ascii "S"] ∧
      (accessed.builder.undefinedRules = [] → ∀ fuel name (context : Context UInt8),
        if accessed.builder.hasRule name = true then
          (accessed.builder.grammar.parse fuel name context).outcome ≠ .exhausted →
            (∃ answer, (accessed.builder.grammar.parse fuel name context).outcome = .returned answer) ∨
              Raised (accessed.builder.grammar.parse fuel name context).outcome
        else (accessed.builder.grammar.parse fuel name context).outcome =
          .thrown (Grammar.notFound (ascii "parse") name)) ∧
      ∀ name ∈ accessed.builder.undefinedRules, accessed.builder.skipper = none → ∀ fuel input,
        (accessed.builder.grammar.parse (fuel + 1) name (Context.fresh input)).outcome =
          .thrown .assertion :=
  ⟨by decide, validation_exact accessed_steps⟩

/-- `S` was created before `L` and comes after it in the map. -/
theorem built_parses_alike :
    built.builder.position start.impl = 1 ∧
      (built.builder.grammar.parse 6 (ascii "S") (Context.fresh (ascii "bx"))).state.position = 2 ∧
      Together (Renamed built.builder.position fun impl => impl < built.builder.slots.length)
        (RenamedMoment built.builder.position fun impl => impl < built.builder.slots.length) Eq Eq
        (built.builder.heap.parse 6 (ascii "S") (Context.fresh (ascii "bx")))
        (built.builder.grammar.parse 6 (ascii "S") (Context.fresh (ascii "bx"))) := by
  refine ⟨by decide, by decide +kernel, creation_order_immaterial (accessed_steps.trans built_steps) ?_
    (by decide) 6 (ascii "bx")⟩
  intro impl body assigned
  cases impl with
  | zero =>
      obtain rfl := Option.some.inj assigned
      simp [suffixed, Expr.Every, Expr.EveryAll, FitBlind]
  | succ impl =>
      cases impl with
      | zero =>
          obtain rfl := Option.some.inj assigned
          simp [Expr.Every, FitBlind]
      | succ impl => cases assigned

end Suffixes

end Peglib.GrammarBuilding
