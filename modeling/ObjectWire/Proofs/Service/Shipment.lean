import Mathlib.Data.List.Forall2
import ObjectWire.Proofs.Service.Transit
import ObjectWire.Proofs.Service.Uses

/-!
# Envelopes in a row

Envelopes that are written one after the other on an output bound to a service are read back in
order on any service that has nothing for the classes and versions they bring definitions of, or the
same.  Writing may make a compressed form, which leaves the form of every other definition as it is;
reading may register definitions, which says nothing new about those that follow.
-/

namespace ObjectWire

namespace Envelope

/-- The second envelope says the same as the first one. -/
structure Matches (e received : Envelope) : Prop where
  typeId : received.typeId = e.typeId
  payload : received.payload = e.payload
  explicitHash : received.explicitHash = e.explicitHash
  partitionHash : received.partitionHash = e.partitionHash
  definition : Option.Rel (fun sent arrived : ClassDefinition => arrived.same sent = true)
    e.definition received.definition

theorem matches_of_definition {e : Envelope} {definition : Option ClassDefinition}
    (same : Option.Rel (fun sent arrived : ClassDefinition => arrived.same sent = true)
      e.definition definition) : e.Matches { e with definition := definition } :=
  ⟨rfl, rfl, rfl, rfl, same⟩

/-- Some of the envelopes bring the definition, or one that it is nested in. -/
def Bring (es : List (Option Envelope)) (part : ClassDefinition) : Prop :=
  ∃ e definition, some e ∈ es ∧ e.definition = some definition ∧ part.PartOf definition

/-- What some of the envelopes bring says the same as the definition. -/
def Know (es : List (Option Envelope)) (definition : ClassDefinition) : Prop :=
  ∃ e root, some e ∈ es ∧ e.definition = some root ∧ definition.FoundIn root

/-- If a class and version stands for one definition only, the definitions that the envelopes bring
    are in consensus. -/
theorem consensus_know {es : List (Option Envelope)}
    (agreed : ∀ part other, Bring es part → Bring es other → part.key = other.key →
      part.same other = true)
    (fits : ∀ e definition, some e ∈ es → e.definition = some definition → definition.Fits) :
    Consensus (Know es) where
  nested := by
    rintro definition inner ⟨e, root, member, brought, found⟩ within
    exact ⟨e, root, member, brought, found.of_nested within⟩
  of_same := by
    rintro definition other ⟨e, root, member, brought, part, within, matched⟩ same
    exact ⟨e, root, member, brought, part, within,
      ClassDefinition.same_trans (ClassDefinition.same_symm same) matched⟩
  same_of_key := by
    rintro definition other ⟨e, root, member, brought, found⟩ ⟨f, stem, among, bears, known⟩ key
    refine ClassDefinition.FoundIn.same_of_key (fun part inner within inside keys => ?_) found
      known key
    exact agreed part inner ⟨e, root, member, brought, within⟩ ⟨f, stem, among, bears, inside⟩ keys
  fits := by
    rintro definition ⟨e, root, member, brought, found⟩
    exact found.fits (fits e root member brought)

/-- A context that has nothing else for what the envelopes bring admits all of it. -/
theorem admits_know {es : List (Option Envelope)} {context : PortableContext}
    (held : ∀ part known, Bring es part → context.lookup part.key = some known →
      known.same part = true) : context.Admits (Know es) := by
  rintro key known found definition ⟨e, root, member, brought, part, within, matched⟩ rfl
  rw [ClassDefinition.key_eq_of_same matched] at found
  have same := held part known ⟨e, root, member, brought, within⟩ found
  exact ClassDefinition.same_trans same (ClassDefinition.same_symm matched)

end Envelope

namespace Transport

/-- What an envelope is written as, if definitions go by the given compressed forms. -/
inductive Ships (formFor : ClassDefinition → Except Failure Bytes) : Option Envelope → Bytes → Prop
  | absent : Ships formFor none (Wire.bool false)
  | plain {e : Envelope} (plain : e.definition = none)
      (small : e.payload.length < Wire.lengthLimit) : Ships formFor (some e) (plainForm e)
  | described {e : Envelope} {definition : ClassDefinition} {compressed : Bytes}
      (brought : e.definition = some definition) (formed : formFor definition = .ok compressed)
      (short : compressed.length < Wire.lengthLimit)
      (small : e.payload.length < Wire.lengthLimit) :
      Ships formFor (some e) (form e definition.key compressed)

end Transport

/-- Neither the compressed form of the definition of an envelope nor its payload is too long for
    the service to send. -/
structure Service.Sends (service : Service) (e : Envelope) : Prop where
  definition : ∀ definition, e.definition = some definition →
    ∃ form, service.context.formFor definition = .ok form ∧ form.length < Wire.lengthLimit
  payload : e.payload.length < Wire.lengthLimit

namespace Service

variable {service : Service} {e : Envelope}

theorem Sends.ships (sends : service.Sends e) :
    ∃ run, Transport.Ships service.context.formFor (some e) run := by
  cases brought : e.definition with
  | none => exact ⟨_, .plain brought sends.payload⟩
  | some definition =>
    obtain ⟨form, formed, short⟩ := sends.definition definition brought
    exact ⟨_, .described brought formed short sends.payload⟩

theorem sends_of_ships {run : Bytes}
    (ships : Transport.Ships service.context.formFor (some e) run) : service.Sends e := by
  cases ships with
  | plain plain small =>
    refine ⟨fun definition brought => ?_, small⟩
    rw [plain] at brought
    cases brought
  | described brought formed short small =>
    refine ⟨fun definition named => ?_, small⟩
    rw [brought] at named
    cases named
    exact ⟨_, formed, short⟩

theorem ships_all_iff {es : List (Option Envelope)} :
    (∃ runs, List.Forall₂ (Transport.Ships service.context.formFor) es runs) ↔
      ∀ e, some e ∈ es → service.Sends e := by
  induction es with
  | nil => exact ⟨fun _ _ => nofun, fun _ => ⟨[], .nil⟩⟩
  | cons first others ih =>
    constructor
    · rintro ⟨_, _ | ⟨ships, rest⟩⟩ e member
      rcases List.mem_cons.mp member with rfl | member
      · exact sends_of_ships ships
      · exact ih.mp ⟨_, rest⟩ e member
    · intro sends
      obtain ⟨runs, rest⟩ := ih.mpr fun e member => sends e (List.mem_cons_of_mem _ member)
      cases first with
      | none => exact ⟨_, .cons .absent rest⟩
      | some e =>
        obtain ⟨run, ships⟩ := (sends e (by simp)).ships
        exact ⟨_, .cons ships rest⟩

end Service

namespace Writing

variable {writing now : Writing} {run : Bytes}

/-- A bound output uses the compressed form that a definition goes by on the service. -/
theorem compressedForm_bound (served : writing.bound = true) (definition : ClassDefinition) :
    compressedForm definition writing = (writing.service.context.formFor definition,
      { writing with service := { writing.service with
          context := (PortableContext.binaryOf definition writing.service.context).2 } }) := by
  unfold compressedForm
  rw [Act.bind_of_ok (Act.get_apply writing), if_pos served, onService, Act.on_apply,
    Service.onContext, Act.on_apply, PortableContext.binaryOf_eq_formFor]

/-- What an envelope ships as is what a bound output writes. -/
theorem gives_ships {e : Option Envelope} (served : writing.bound = true)
    (ships : Transport.Ships writing.service.context.formFor e run) :
    Act.Gives (envelope e) writing fun _ now => ∃ reached, writing.Puts run reached now ∧
      reached.context.formFor = writing.service.context.formFor := by
  cases ships with
  | absent =>
    refine (gives_write (Wire.bool false) writing).mono fun _ now puts => ?_
    exact ⟨_, puts, rfl⟩
  | plain plain small =>
    refine (gives_plain plain small).mono fun _ now puts => ?_
    exact ⟨_, puts, rfl⟩
  | @described e definition form brought formed short small =>
    have makes : ∀ named : Writing, named.service = writing.service →
        named.bound = writing.bound →
        Act.Gives (compressedForm definition) named fun compressed next =>
          compressed = form ∧ named.Puts [] { writing.service with
            context := (PortableContext.binaryOf definition writing.service.context).2 } next := by
      intro named service bound
      have made := compressedForm_bound (bound.trans served) definition
      rw [service, formed] at made
      exact ⟨form, _, made, rfl, (List.append_nil _).symm, rfl, rfl⟩
    refine (gives_described brought makes short small).mono fun _ now puts => ?_
    refine ⟨_, puts, funext fun other => ?_⟩
    exact PortableContext.formFor_binaryOf definition other writing.service.context

/-- Whatever a bound output has written ships. -/
theorem ships_of_ok {e : Option Envelope} (served : writing.bound = true)
    (h : envelope e writing = (.ok (), now)) :
    ∃ run, Transport.Ships writing.service.context.formFor e run := by
  cases e with
  | none => exact ⟨_, .absent⟩
  | some e =>
    cases brought : e.definition with
    | none => exact ⟨_, .plain brought (plain_ok brought h)⟩
    | some definition =>
      obtain ⟨named, form, made, service, bound, formed, short, small⟩ := described_ok brought h
      rw [compressedForm_bound (bound.trans served) definition, service] at formed
      exact ⟨_, .described brought (congrArg Prod.fst formed) short small⟩

/-- Envelopes are written one behind the other. -/
theorem gives_all {es : List (Option Envelope)} {runs : List Bytes} (served : writing.bound = true)
    (ships : List.Forall₂ (Transport.Ships writing.service.context.formFor) es runs) :
    Act.Gives (Act.forEach envelope es) writing fun _ now =>
      ∃ reached, writing.Puts runs.flatten reached now := by
  induction es generalizing writing runs with
  | nil =>
    cases ships
    exact Act.gives_pure ⟨_, (List.append_nil _).symm, rfl, rfl⟩
  | cons e es ih =>
    cases ships with
    | @cons _ run _ runs first others =>
      apply (gives_ships served first).bind
      rintro - next ⟨reached, puts, forms⟩
      rw [← forms, ← puts.service] at others
      refine (ih (puts.bound.trans served) others).mono ?_
      rintro - last ⟨final, more⟩
      exact ⟨final, puts.trans more⟩

/-- If all of the envelopes were written, all of them ship. -/
theorem ships_all_of_ok {es : List (Option Envelope)} (served : writing.bound = true)
    (h : Act.forEach envelope es writing = (.ok (), now)) :
    ∃ runs, List.Forall₂ (Transport.Ships writing.service.context.formFor) es runs := by
  induction es generalizing writing with
  | nil => exact ⟨[], .nil⟩
  | cons e es ih =>
    obtain ⟨_, next, wrote, h⟩ := Act.bind_ok h
    obtain ⟨run, ships⟩ := ships_of_ok served wrote
    obtain ⟨_, _, ran, reached, puts, forms⟩ := gives_ships served ships
    rw [wrote] at ran
    cases ran
    obtain ⟨runs, others⟩ := ih (puts.bound.trans served) h
    rw [puts.service, forms] at others
    exact ⟨run :: runs, .cons ships others⟩

end Writing

namespace Receiving

variable {among : ClassDefinition → Prop} {service : Service}

/-- A compressed form of one of the definitions resolves to a definition that says the same, and the
    service still admits all of them. -/
theorem takes_resolve_among {definition arrived : ClassDefinition} {form : Bytes}
    (consensus : Consensus among) (admits : service.context.Admits among)
    (member : among definition) (come : ClassDefinition.ofCompressed form = .ok arrived)
    (same : arrived.same definition = true) :
    ∃ reached settled, Takes (resolve definition.key form) [] service reached settled ∧
      settled.same definition = true ∧ reached.context.Admits among := by
  cases registered : service.context.lookup definition.key with
  | some known =>
    exact ⟨service, known, takes_resolve_known registered,
      admits _ known registered definition member rfl, admits⟩
  | none =>
    have found : among arrived := consensus.of_same member (ClassDefinition.same_symm same)
    obtain ⟨settled, context, imported, gains, equal, -⟩ :=
      PortableContext.gives_import consensus admits come found
    exact ⟨{ service with context := context }, settled, takes_resolve registered imported,
      ClassDefinition.same_trans equal same, gains.admits consensus admits⟩

/-- The definitions that an envelope ships with are among the given ones, and are read as what they
    are. -/
def Arrives (among : ClassDefinition → Prop) (formFor : ClassDefinition → Except Failure Bytes)
    (e : Envelope) : Prop :=
  ∀ definition form, e.definition = some definition → formFor definition = .ok form →
    among definition ∧ ∃ arrived, ClassDefinition.ofCompressed form = .ok arrived ∧
      arrived.same definition = true

variable {formFor : ClassDefinition → Except Failure Bytes}

theorem takes_shipped {e : Option Envelope} {run : Bytes} (consensus : Consensus among)
    (admits : service.context.Admits among) (ships : Transport.Ships formFor e run)
    (arrives : ∀ sent, e = some sent → Arrives among formFor sent) :
    ∃ reached received, Takes envelope run service reached received ∧
      Option.Rel Envelope.Matches e received ∧ reached.context.Admits among := by
  cases ships with
  | absent => exact ⟨service, none, takes_absent service, .none, admits⟩
  | @plain e plain small =>
    have rel : e.Matches { e with definition := none } := by
      apply Envelope.matches_of_definition
      rw [plain]
      exact .none
    exact ⟨service, _, takes_plain small service, .some rel, admits⟩
  | @described e definition form brought formed short small =>
    obtain ⟨member, arrived, come, same⟩ := arrives e rfl definition form brought formed
    obtain ⟨reached, settled, resolved, equal, still⟩ :=
      takes_resolve_among consensus admits member come same
    have rel : e.Matches { e with definition := some settled } := by
      apply Envelope.matches_of_definition
      rw [brought]
      exact .some equal
    have key := ClassDefinition.key_eq_of_same equal
    exact ⟨reached, _, takes_envelope short small resolved key, .some rel, still⟩

/-- Envelopes are read in the order in which they were written. -/
theorem takes_all {es : List (Option Envelope)} {runs : List Bytes} (consensus : Consensus among)
    (admits : service.context.Admits among)
    (ships : List.Forall₂ (Transport.Ships formFor) es runs)
    (arrives : ∀ e, some e ∈ es → Arrives among formFor e) :
    ∃ reached received, Takes (Act.times es.length envelope) runs.flatten service reached received ∧
      List.Forall₂ (Option.Rel Envelope.Matches) es received := by
  induction ships generalizing service with
  | nil => exact ⟨service, [], takes_pure service [], .nil⟩
  | @cons e run es runs first _ ih =>
    obtain ⟨next, answer, taken, same, still⟩ := takes_shipped consensus admits first
      fun sent is => arrives sent (by simp [is])
    obtain ⟨last, others, rest, alike⟩ := ih still
      fun sent member => arrives sent (List.mem_cons_of_mem _ member)
    refine ⟨last, answer :: others, taken.bind ?_, .cons same alike⟩
    exact rest.bind_nil (takes_pure last (answer :: others))

end Receiving

namespace Service

variable {starts : Settings → Prop} {allowed : Use → Prop} {sender receiver : Service}

/-- Envelopes whose definitions are well formed and not too deep are written one after the other on
    an output bound to the sender exactly if the sender can send each of them.  If in all that they
    bring a class and version stands for one definition only, and the receiver has nothing for it or
    the same, then reading as many envelopes on the receiver, whatever follows them, gives back the
    same envelopes in order and takes exactly what was written. -/
theorem envelopes_arrive_in_order (reachable : Reachable starts allowed sender)
    {es : List (Option Envelope)}
    (built : ∀ e definition, some e ∈ es → e.definition = some definition →
      definition.Built ∧ definition.depth ≤ Failure.maxDefinitionLevels)
    (agreed : ∀ part other, Envelope.Bring es part → Envelope.Bring es other →
      part.key = other.key → part.same other = true)
    (held : ∀ part known, Envelope.Bring es part →
      receiver.context.lookup part.key = some known → known.same part = true)
    (output : Output) :
    ((∃ last, Act.forEach Writing.envelope es ⟨output, sender, true⟩ = (.ok (), last)) ↔
      ∀ e, some e ∈ es → sender.Sends e) ∧
    ∀ last, Act.forEach Writing.envelope es ⟨output, sender, true⟩ = (.ok (), last) →
      ∃ run received remote, last.output.content = output.content ++ run ∧
        List.Forall₂ (Option.Rel Envelope.Matches) es received ∧
        ∀ rest position, Act.times es.length Receiving.envelope
          ⟨⟨run ++ rest, position⟩, receiver, true⟩ =
            (.ok received, ⟨⟨rest, position + run.length⟩, remote, true⟩) := by
  have tidy := reachable.tidy
  constructor
  · rw [← ships_all_iff]
    constructor
    · rintro ⟨last, wrote⟩
      exact @Writing.ships_all_of_ok ⟨output, sender, true⟩ _ _ rfl wrote
    · rintro ⟨runs, ships⟩
      obtain ⟨_, last, ran, -⟩ :=
        @Writing.gives_all ⟨output, sender, true⟩ _ _ rfl ships
      exact ⟨last, ran⟩
  · intro last wrote
    obtain ⟨runs, ships⟩ :=
      @Writing.ships_all_of_ok ⟨output, sender, true⟩ _ _ rfl wrote
    obtain ⟨_, final, ran, reached, puts⟩ :=
      @Writing.gives_all ⟨output, sender, true⟩ _ _ rfl ships
    rw [wrote] at ran
    cases ran
    -- whatever form a definition is sent in, it is read as what it is
    have arrives : ∀ e definition form, some e ∈ es → e.definition = some definition →
        sender.context.formFor definition = .ok form →
        ∃ arrived, ClassDefinition.ofCompressed form = .ok arrived ∧
          arrived.same definition = true := by
      intro e definition form member brought formed
      obtain ⟨built, shallow⟩ := built e definition member brought
      exact (tidy.isForm formed).arrives built.wellFormed shallow
    have fits : ∀ e definition, some e ∈ es → e.definition = some definition →
        definition.Fits := by
      intro e definition member brought
      obtain ⟨form, formed, -⟩ :=
        (ships_all_iff.mp ⟨runs, ships⟩ e member).definition definition brought
      obtain ⟨arrived, come, same⟩ := arrives e definition form member brought formed
      exact (ClassDefinition.fits_of_ofCompressed come).of_same (ClassDefinition.same_symm same)
    obtain ⟨remote, received, taken, same⟩ :=
      Receiving.takes_all (Envelope.consensus_know agreed fits) (Envelope.admits_know held) ships
        fun e member definition form brought formed =>
          ⟨⟨e, definition, member, brought, definition, .whole definition,
            ClassDefinition.same_refl definition⟩,
            arrives e definition form member brought formed⟩
    exact ⟨runs.flatten, received, remote, puts.content, same, taken⟩

/-- Two envelopes with the same definition, none and a plain one in between, sent to a service that
    has one of the nested definitions. -/
theorem envelopes_arrive_in_order_of_four :
    let street : ClassDefinition := ⟨⟨2, 0⟩, [⟨"zip", .scalar .int, 0, .none⟩], [], none⟩
    let home : ClassDefinition := ⟨⟨-1, 7⟩, [⟨"home", .portable, 0, ⟨2, 0⟩⟩], [street], none⟩
    let es : List (Option Envelope) := [some ⟨1, [1, 2, 3], some home, none⟩, none,
      some ⟨-5, [], none, some 9⟩, some ⟨1, [4], some home, some (-1)⟩]
    let sender := ofSettings .default
    let receiver := (onContext (PortableContext.register street) sender).2
    ∃ last run received remote,
      Act.forEach Writing.envelope es ⟨.empty 0, sender, true⟩ = (.ok (), last) ∧
        last.output.content = [] ++ run ∧
        List.Forall₂ (Option.Rel Envelope.Matches) es received ∧
        Act.times 4 Receiving.envelope ⟨⟨run ++ [0xFF], 0⟩, receiver, true⟩ =
          (.ok received, ⟨⟨[0xFF], 0 + run.length⟩, remote, true⟩) := by
  intro street home es sender receiver
  have reachable : Reachable (fun _ => True) (fun _ => False) sender := .start trivial
  have street_built : street.Built :=
    .build (.addField (.start ⟨2, 0⟩) (rfl : Draft.addField "zip" (.scalar .int) _ = _)) rfl
  have home_built : home.Built := .build (.addPortable (.start ⟨-1, 7⟩) street_built rfl) rfl
  have brings : ∀ e definition, some e ∈ es → e.definition = some definition →
      definition = home := by
    intro e definition member brought
    simp only [es, List.mem_cons, Option.some.injEq, reduceCtorEq, List.not_mem_nil, or_false,
      false_or] at member
    rcases member with rfl | rfl | rfl <;> cases brought <;> rfl
  have parts : ∀ part, Envelope.Bring es part → part = home ∨ part = street := by
    rintro part ⟨e, definition, member, brought, within⟩
    obtain rfl := brings e definition member brought
    cases within with
    | whole => exact .inl rfl
    | inside among within =>
      obtain rfl := List.mem_singleton.mp among
      cases within with
      | whole => exact .inr rfl
      | inside among _ => cases among
  have agreed : ∀ part other, Envelope.Bring es part → Envelope.Bring es other →
      part.key = other.key → part.same other = true := by
    intro part other first second
    rcases parts part first with rfl | rfl <;> rcases parts other second with rfl | rfl <;> decide
  have held : ∀ part known, Envelope.Bring es part →
      receiver.context.lookup part.key = some known → known.same part = true := by
    have holds : ∀ part ∈ [home, street],
        (receiver.context.lookup part.key).all (·.same part) = true := by decide +kernel
    intro part known brought found
    have same := holds part (by simpa using parts part brought)
    rwa [found] at same
  have length : home.layout.toOption.map List.length = some 73 := by decide +kernel
  have sends : ∀ e, some e ∈ es → sender.Sends e := by
    intro e member
    have small : e.payload.length < Wire.lengthLimit := by
      simp only [es, List.mem_cons, Option.some.injEq, reduceCtorEq, List.not_mem_nil, or_false,
        false_or] at member
      rcases member with rfl | rfl | rfl <;> decide
    refine ⟨fun definition brought => ?_, small⟩
    obtain rfl := brings e definition member brought
    exact (Envelope.fits_of_layout (ClassDefinition.same_refl home) length (by decide) (by decide)
      small).definition
  have built : ∀ e definition, some e ∈ es → e.definition = some definition →
      definition.Built ∧ definition.depth ≤ Failure.maxDefinitionLevels := by
    intro e definition member brought
    obtain rfl := brings e definition member brought
    exact ⟨home_built, by decide⟩
  obtain ⟨writes, reads⟩ := envelopes_arrive_in_order reachable built agreed held (.empty 0)
  obtain ⟨last, wrote⟩ := writes.mpr sends
  obtain ⟨run, received, remote, content, same, taken⟩ := reads last wrote
  exact ⟨last, run, received, remote, wrote, content, same, taken [0xFF] 0⟩

end Service

end ObjectWire
