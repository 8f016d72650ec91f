import LlamaAgents.Client.EventEnvelope
import LlamaAgents.Lemmas.EventObjects

/-!
# Events survive the wire

The dump of an instance validates to the instance. An envelope names the class, so that the server finds it in its registry. A bare
start event is told from an envelope by the names of its fields, has lost the name of its class, and is encoded as it is.
-/

namespace LlamaAgents

open Lib (Dict Json)

namespace EventEnvelopeAux

open EventObjectsAux

variable {e : EventObj} {C : EventClass}

/-! ## Envelopes -/

variable (loads : String → Option Json) (importClass : String → Option (Option EventClass)) {registry : Dict String EventClass}

/-- An envelope that has the dump of an instance and the name of its class gives the instance exactly when the dump has all there is. -/
theorem load_iff (he : e.IsOf C) (hC : registry.get? e.type.name = some C) :
    EventEnvelope.load importClass registry ⟨e.dumpJson, some e.type.name, none⟩ = .ok e ↔ e.DumpsAll C := by
  have hname : EventEnvelope.present (some e.type.name) = some e.type.name := by
    rw [EventEnvelope.present, Option.filter_some, if_pos]
    rw [he.type]
    exact decide_eq_true C.named
  rw [EventEnvelope.load]
  dsimp only
  rw [hname]
  dsimp only
  rw [hC, ← modelValidate_dumpJson_iff he]
  dsimp only
  cases C.modelValidate e.dumpJson with
  | none => exact iff_of_false nofun nofun
  | some _ => rw [Except.ok.injEq, Option.some.injEq]

/-- So does the server, from the envelope of an instance of a registered class. -/
theorem parse_envelope (he : e.IsOf C) (hC : registry.get? e.type.name = some C) (explicitEvent : Option EventClass) :
    EventEnvelope.parse loads importClass (EventEnvelope.fromEvent e).modelDump registry explicitEvent = .ok e ↔ e.DumpsAll C :=
  load_iff importClass he hC

/-- A bare instance that survives is not taken for an envelope. -/
theorem missingQualifiers_entries (hbare : e.SurvivesBare) : EventEnvelope.missingQualifiers e.dumpEntries = true := by
  rw [EventEnvelope.missingQualifiers, lookup_dumpEntries_eq_none hbare.noValue (by decide) (by decide)]
  rcases not_and_or.1 hbare.noQualifiers with hnot | hnot
  · rw [lookup_dumpEntries_eq_none hnot (by decide) (by decide)]
    rfl
  · rw [lookup_dumpEntries_eq_none hnot (by decide) (by decide)]
    simp

/-- The server parses a bare instance of the explicit class to the instance, if it is not taken for an envelope. -/
theorem parse_bare (he : e.IsOf C) (hall : e.DumpsAll C) (hC : registry.get? e.type.name = some C) (hbare : e.SurvivesBare) :
    EventEnvelope.parse loads importClass e.dumpJson registry (some C) = .ok e := by
  have hcontains : registry.contains C.type.name = true := by
    rw [Dict.contains, ← he.type, hC]
    rfl
  change EventEnvelope.parseObject importClass e.dumpEntries registry (some C) = .ok e
  unfold EventEnvelope.parseObject
  rw [missingQualifiers_entries hbare]
  dsimp only
  rw [hcontains, if_pos rfl, ← he.type]
  exact (load_iff importClass he hC).2 hall

/-- A body with an object that is parsed to an instance of the start event class starts the workflow with it. -/
theorem extractStartEvent_iff {start : EventClass} {body : Json} {l : List (String × Json)}
    (hbody : startEventData body = .dict l) (hsub : e.type.isSubclass start.type = true) :
    extractStartEvent loads importClass registry start body = .ok (some e) ↔
      EventEnvelope.parse loads importClass (.dict l) registry (some start) = .ok e := by
  rw [extractStartEvent, hbody]
  dsimp only
  cases EventEnvelope.parse loads importClass (.dict l) registry (some start) with
  | error _ => exact iff_of_false nofun nofun
  | ok f =>
    dsimp only
    constructor
    · intro h
      split at h <;> cases h
      rfl
    · intro h
      cases h
      rw [if_pos hsub]

theorem postedEvent_iff {body data : Json} (hbody : (bodyGet "event" body).filter Json.isTruthy = some data) :
    postedEvent loads importClass registry body = .ok e ↔ EventEnvelope.parse loads importClass data registry none = .ok e := by
  rw [postedEvent, hbody]
  dsimp only
  cases EventEnvelope.parse loads importClass data registry none with
  | error _ => exact iff_of_false nofun nofun
  | ok f =>
    dsimp only
    rw [Except.ok.injEq, Except.ok.injEq]

end EventEnvelopeAux

open EventEnvelopeAux

/-- Events survive the wire. Let `e` be an instance of a class that is registered under its name. The server parses `e` from what
`send_event` sends, and from what `run_workflow_nowait` sends if the class of `e` derives from the workflow's start event class,
exactly when the dump of `e` has all there is. It then parses `e` from what `run_workflow` sends if the class of `e` is the start
event class, and `e` is not taken for an envelope and is encoded. -/
theorem events_survive_wire (loads : String → Option Json) (importClass : String → Option (Option EventClass))
    (registry : Dict String EventClass) (startEventClass : EventClass) {e : EventObj} {C : EventClass}
    (hC : registry.get? e.type.name = some C) (he : e.IsOf C) :
    ((∃ body, sendEventBody e = some body ∧ postedEvent loads importClass registry body = .ok e) ↔ e.DumpsAll C) ∧
    (e.type.isSubclass startEventClass.type = true → ((∃ body, runWorkflowNowaitBody e = some body ∧
      extractStartEvent loads importClass registry startEventClass body = .ok (some e)) ↔ e.DumpsAll C)) ∧
    (startEventClass = C → e.DumpsAll C → e.SurvivesBare → ∃ body, runWorkflowBody e = some body ∧
      extractStartEvent loads importClass registry startEventClass body = .ok (some e)) := by
  refine ⟨?_, fun hsub => ?_, ?_⟩
  · have hbody : sendEventBody e = some (.dict [("event", (EventEnvelope.fromEvent e).modelDump)]) := rfl
    simp only [hbody, Option.some.injEq, exists_eq_left']
    exact (postedEvent_iff loads importClass rfl).trans (parse_envelope loads importClass he hC none)
  · have hbody : runWorkflowNowaitBody e =
        some (.dict [("start_event", (EventEnvelope.fromEvent e).modelDump), ("context", .dict [])]) := rfl
    simp only [hbody, Option.some.injEq, exists_eq_left']
    exact (extractStartEvent_iff loads importClass rfl hsub).trans (parse_envelope loads importClass he hC _)
  · rintro rfl hall hbare
    refine ⟨.dict [("start_event", e.dumpJson), ("context", .dict [])], ?_, ?_⟩
    · rw [runWorkflowBody, serializeEvent, if_pos rfl, EventObjectsAux.dumpPlain_eq hbare.encoded]
      rfl
    · refine (extractStartEvent_iff loads importClass rfl ?_).2 (parse_bare loads importClass he hall hC hbare)
      rw [he.type, EventType.isSubclass, decide_eq_true rfl]
      rfl

namespace BareEvents

open SampleEvents

/-- `class Ask(StartEvent)`. -/
def ask : EventType := ⟨"Ask", "app.Ask", ["workflows.events.StartEvent", "workflows.events.Event"]⟩

/-- `class AskTwice(Ask)`. -/
def askTwice : EventType := ⟨"AskTwice", "app.AskTwice", ["app.Ask", "workflows.events.StartEvent", "workflows.events.Event"]⟩

/-- The registry of some classes. -/
def registryOf (classes : List EventClass) : Dict String EventClass := classes.foldl (fun d C => d.set C.type.name C) ∅

end BareEvents

open SampleEvents BareEvents in
/-- A bare start event with a field `value` is refused as an envelope without a qualifier; one of a subclass is taken for an instance
of the start event class; and one with a time is not sent at all. A stop event that is sent loses its dynamic fields. -/
theorem events_survive_wire_false :
    (∃ (C : EventClass) (e : EventObj) (body : Json), e.IsOf C ∧ runWorkflowBody e = some body ∧
      extractStartEvent (fun _ => none) (fun _ => none) (registryOf [C]) C body =
        .error ("Validation error for 'start_event': " ++ " ".intercalate [ParseError.noQualifier.text])) ∧
    (∃ (S C : EventClass) (e f : EventObj) (body : Json), e.IsOf C ∧ C.type.isSubclass S.type = true ∧
      runWorkflowBody e = some body ∧ f.type = S.type ∧ e.type ≠ f.type ∧
        extractStartEvent (fun _ => none) (fun _ => none) (registryOf [S, C]) S body = .ok (some f)) ∧
    (∃ (C : EventClass) (e : EventObj), e.IsOf C ∧ runWorkflowBody e = none) ∧
    ∃ (C : EventClass) (e f : EventObj) (body : Json), e.IsOf C ∧ sendEventBody e = some body ∧ e.hasData = true ∧
      f.hasData = false ∧ postedEvent (fun _ => none) (fun _ => none) (registryOf [C]) body = .ok f := by
  refine ⟨⟨oneField ask "value" textField, instanceOf ask "value" (.json (.str "v")) [] .null, _, ?_, rfl, rfl⟩,
    ⟨oneField ask "text" textField, oneField askTwice "text" textField, instanceOf askTwice "text" (.json (.str "v")) [] .null,
      instanceOf ask "text" (.json (.str "v")) [] .null, _, ?_, by decide, rfl, rfl, by decide, rfl⟩,
    ⟨oneField ask "at" timeField, instanceOf ask "at" (.object "2025-01-01" (.str "2025-01-01") none) [] .null, ?_, rfl⟩,
    ⟨oneField .stopEvent "text" textField, instanceOf .stopEvent "text" (.json (.str "v")) [("k", .num 1)] .null,
      instanceOf .stopEvent "text" (.json (.str "v")) [] .null, _, ?_, rfl, rfl, rfl, rfl⟩⟩
  all_goals exact instanceOf_isOf rfl fun _ => rfl

open SampleEvents BareEvents in
/-- A start event with a text and a dynamic field is the one that the workflow is started with. -/
theorem events_survive_wire_plain : ∃ (C : EventClass) (e : EventObj) (body : Json), e.IsOf C ∧ e.SurvivesBare ∧
    runWorkflowBody e = some body ∧
      extractStartEvent (fun _ => none) (fun _ => none) (registryOf [C]) C body = .ok (some e) := by
  have he : (instanceOf ask "text" (.json (.str "v")) [("value", .str "w")] .null).IsOf (oneField ask "text" textField) :=
    instanceOf_isOf rfl fun _ => rfl
  obtain ⟨-, -, hbare⟩ := events_survive_wire (fun _ => none) (fun _ => none) (registryOf [oneField ask "text" textField])
    (oneField ask "text" textField) rfl he
  have hsurvives : (instanceOf ask "text" (.json (.str "v")) [("value", .str "w")] .null).SurvivesBare :=
    ⟨by decide, by decide, fun p hp => by cases List.mem_singleton.1 hp; rfl⟩
  obtain ⟨body, hbody, hparsed⟩ := hbare rfl nofun hsurvives
  exact ⟨_, _, body, he, hsurvives, hbody, hparsed⟩

end LlamaAgents
