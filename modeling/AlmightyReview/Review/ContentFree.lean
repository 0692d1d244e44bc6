import AlmightyReview.Review.Tolerant
import AlmightyReview.Review.Vendor

/-!
# Telemetry without content

Two outputs of a CLI whose events look alike have the same metadata, whatever the texts in them are.

* `View`: what is seen of an event. `objectLines` says which lines are objects.
* `AlikeLines`, `AlikePayload`: outputs that look alike, for the two vendors.
* `SameTelemetry`: the metadata are the same, and what is stored of a chunk.
-/

namespace VendorTelemetry

open Json (Loaded get)

/-! ## What is seen -/

/-- The type of the event is one of these. -/
def ofType (types : List String) (e : Event) : Bool :=
  types.any fun t => isText t.toList (getItem e "type".toList)

/-- The type of the item, where it is an object. -/
def itemType (e : Event) : Loaded :=
  match getItem e "item".toList with
  | .obj nested => getItem nested "type".toList
  | _ => .null

def blockType : Loaded → Loaded
  | .obj fields => getItem fields "type".toList
  | _ => .null

/-- The types of the blocks of a message. -/
def blockTypes (e : Event) : List Loaded :=
  match getItem e "message".toList with
  | .obj message =>
    match getItem message "content".toList with
    | .arr content => content.map blockType
    | _ => []
  | _ => []

/-- The result is a text; without one it is empty. -/
def resultIsText (e : Event) : Bool :=
  match get e "result".toList with
  | none => true
  | some (.str _) => true
  | some _ => false

def isObject : Loaded → Bool
  | .obj _ => true
  | _ => false

/-- What is seen of an event. -/
structure View where
  typ : Loaded
  itemType : Loaded
  blockTypes : List Loaded
  usage : Option Usage
  isError : Loaded
  apiErrorStatus : Loaded
  resultIsText : Bool
  errorCode : Option Text
deriving DecidableEq

/-- Each field is seen only of the events in which the parsers look it up. -/
def view (e : Event) : View where
  typ := getItem e "type".toList
  itemType := if ofType ["item.completed"] e then itemType e else .null
  blockTypes := if ofType ["assistant"] e then blockTypes e else []
  usage := if ofType ["turn.completed", "result"] e then numericUsage (getItem e "usage".toList)
    else none
  isError := if ofType ["result"] e then getItem e "is_error".toList else .null
  apiErrorStatus := if ofType ["result"] e then getItem e "api_error_status".toList else .null
  resultIsText := if ofType ["result"] e then resultIsText e else true
  errorCode := if ofType ["turn.failed", "error"] e then some (safeErrorFromEvent e) else none

/-- A turn is complete and says what it used. -/
def hasUsage (e : Event) : Bool :=
  ofType ["turn.completed"] e && isObject (getItem e "usage".toList)

/-- Which lines are objects. -/
def objectLines (depth : Nat) (payload : Text) : List Bool :=
  payload.lines.map fun line => (eventOf depth line).isSome

/-- The events of an output that is one object or a list of objects. -/
def wholeEvents (depth : Nat) (payload : Text) : Option (List Event) :=
  if payload.strip = [] then none
  else
    match Json.loads depth payload.strip with
    | .ok (.obj one) => some [one]
    | .ok (.arr xs) => allObjects xs
    | _ => none

/-- Nothing of the output is cut off. -/
structure WithinLimits (depth : Nat) (payload : Text) : Prop where
  bytes : payload.encode.length ≤ maxEventBytes
  lines : payload.lines.length ≤ maxEventLines
  events : ∀ es ∈ wholeEvents depth payload, es.length ≤ maxEventLines

/-! ## Outputs that look alike -/

/-- Two outputs of Codex that look alike. -/
structure AlikeLines (depth : Nat) (payload payload' : Text) : Prop where
  events : (lineEvents depth payload).map view = (lineEvents depth payload').map view
  usage : (lineEvents depth payload).map hasUsage = (lineEvents depth payload').map hasUsage
  lines : objectLines depth payload = objectLines depth payload'

/-- Two outputs of Claude that look alike. Their lines matter when they are not one value. -/
structure AlikePayload (depth : Nat) (payload payload' : Text) : Prop where
  events : (payloadEvents depth payload).map view = (payloadEvents depth payload').map view
  whole : (wholeEvents depth payload).isSome = (wholeEvents depth payload').isSome
  lines : wholeEvents depth payload = none → objectLines depth payload = objectLines depth payload'

/-- What `_chunk_execution_meta` takes of the metadata. -/
def telemetryOf (m : Meta) (durationMs : Option Nat) : Telemetry where
  safeErrorCode := m.safeErrorCode
  durationMs := durationMs
  inputTokens := m.inputTokens.map Int.toNat
  cachedInputTokens := m.cachedInputTokens.map Int.toNat
  outputTokens := m.outputTokens.map Int.toNat
  reasoningOutputTokens := m.reasoningOutputTokens.map Int.toNat
  totalTokens := m.totalTokens.map Int.toNat
  toolCalls := m.toolCalls.map Int.toNat
  eventCount := m.eventCount.map Int.toNat
  streamTruncated := m.streamTruncated
  telemetryStatus := m.telemetryStatus
  cliName := some m.cliName
  cliVersion := m.cliVersion
  eventSchema := m.eventSchema

/-- The metadata are the same, and so is what is stored of a chunk. -/
def SameTelemetry (a b : Except Exc ParsedVendorTelemetry) : Prop :=
  ∀ r r', a = .ok r → b = .ok r' → r.metadata = r'.metadata ∧
    ∀ c status durationMs,
      Pipeline.chunkExecutionMeta c status (telemetryOf r.metadata durationMs) =
        Pipeline.chunkExecutionMeta c status (telemetryOf r'.metadata durationMs)

/-! ## Events -/

theorem eventsFrom_exact {depth i : Nat} {lines : List Text}
    (hi : i + lines.length ≤ maxEventLines) (h : ∀ line ∈ lines, tooDeep depth line = false) :
    eventsFrom depth i lines = .ok (lines.filterMap (eventOf depth),
      (lines.map fun line => (eventOf depth line).isSome).any (!·)) := by
  induction lines generalizing i with
  | nil => rfl
  | cons line lines ih =>
    rw [List.length_cons] at hi
    have hline := h line List.mem_cons_self
    rw [eventsFrom, if_neg (by omega), ih (by omega) fun l hl => h l (List.mem_cons_of_mem _ hl)]
    unfold tooDeep at hline
    split
    · next hdeep =>
      rw [hdeep] at hline
      cases hline
    · next fields hload =>
      have hsome : eventOf depth line = some fields := by
        rw [eventOf, hload]
        rfl
      rw [List.filterMap_cons_some hsome, List.map_cons, List.any_cons, hsome]
      rfl
    · next hother hobj =>
      have hnone : eventOf depth line = none := by
        unfold eventOf Json.fieldsOf
        split
        · next fields hload => exact absurd hload (hobj fields)
        · rfl
      rw [List.filterMap_cons_none hnone, List.map_cons, List.any_cons, hnone]
      rfl

theorem boundedEventPayload_eq {payload : Text} (h : payload.encode.length ≤ maxEventBytes) :
    boundedEventPayload payload = (payload, false) := if_pos h

theorem eventLines_eq {depth : Nat} {payload : Text} (h : WithinLimits depth payload) :
    eventLines payload = payload.lines := by
  rw [eventLines, boundedEventPayload_eq h.bytes, List.take_of_length_le h.lines]

theorem jsonLines_exact {depth : Nat} {payload : Text} (h : WithinLimits depth payload)
    (hshallow : ShallowLines depth payload) :
    jsonLines depth payload =
      .ok (lineEvents depth payload, (objectLines depth payload).any (!·)) := by
  unfold ShallowLines at hshallow
  rw [eventLines_eq h] at hshallow
  rw [jsonLines, boundedEventPayload_eq h.bytes, lineEvents, eventLines_eq h]
  dsimp only
  rw [eventsFrom_exact (by have := h.lines; omega) hshallow]
  rfl

/-- The events of an output for Claude; whether it is incomplete matters where it has events. -/
theorem jsonPayload_exact {depth : Nat} {payload : Text} (h : WithinLimits depth payload)
    (hshallow : ShallowPayload depth payload) :
    ∃ p, jsonPayload depth payload = .ok (payloadEvents depth payload, p) ∧
      (payloadEvents depth payload ≠ [] →
        p = (!(wholeEvents depth payload).isSome && (objectLines depth payload).any (!·))) := by
  have hwhole := hshallow.whole
  have hlines := hshallow.lines
  have hevents := h.events
  unfold jsonPayload payloadEvents
  unfold wholeEvents at hevents ⊢
  unfold strippedPayload tooDeep at *
  rw [boundedEventPayload_eq h.bytes] at *
  dsimp only at *
  by_cases hs : payload.strip = []
  · rw [if_pos hs, if_pos hs]
    exact ⟨true, rfl, fun hne => absurd rfl hne⟩
  · have hwhole := hwhole hs
    have hlines := hlines hs
    rw [if_neg hs] at hevents
    rw [if_neg hs, if_neg hs, if_neg hs]
    cases hl : Json.loads depth payload.strip with
    | error e =>
      rw [hl] at hwhole hlines
      have hjson := jsonLines_exact h (hlines rfl)
      cases e with
      | recursionError => cases hwhole
      | decodeError =>
        refine ⟨_, by dsimp only; rw [hjson]; rfl, fun _ => ?_⟩
        rfl
      | valueError =>
        refine ⟨_, by dsimp only; rw [hjson]; rfl, fun _ => ?_⟩
        rfl
    | ok v =>
      rw [hl] at hevents
      cases v with
      | obj one => exact ⟨_, rfl, fun _ => rfl⟩
      | arr xs =>
        dsimp only at hevents ⊢
        cases hx : allObjects xs with
        | none => exact ⟨true, rfl, fun hne => absurd rfl hne⟩
        | some one =>
          have hlen := hevents one hx
          refine ⟨_, rfl, fun _ => ?_⟩
          simpa using hlen
      | _ => exact ⟨true, rfl, fun hne => absurd rfl hne⟩

/-! ## Codex -/

theorem typ_eq {e e' : Event} (h : view e = view e') :
    getItem e "type".toList = getItem e' "type".toList := congrArg View.typ h

theorem ofType_eq {e e' : Event} (h : view e = view e') (types : List String) :
    ofType types e = ofType types e' := by
  unfold ofType
  rw [typ_eq h]

theorem ofType_of_isText {e : Event} {t : String} {types : List String} (ht : t ∈ types)
    (h : isText t.toList (getItem e "type".toList) = true) : ofType types e = true :=
  List.any_eq_true.mpr ⟨t, ht, h⟩

theorem codexEvent_turn {e : Event}
    (h : isText "turn.completed".toList (getItem e "type".toList) = true) (st : CodexState) :
    codexEvent st e = .ok
      { st with
        terminalSeen := true
        usage := if isObject (getItem e "usage".toList) then numericUsage (getItem e "usage".toList)
          else st.usage } := by
  unfold codexEvent
  dsimp only
  rw [if_pos h]
  generalize getItem e "usage".toList = v
  cases v <;> rfl

theorem codexEvent_item {e : Event}
    (hturn : isText "turn.completed".toList (getItem e "type".toList) = false)
    (h : isText "item.completed".toList (getItem e "type".toList) = true) (st : CodexState) :
    codexEvent st e = (memberOf toolItemTypes (itemType e)).map fun tool =>
      if tool then { st with toolCalls := st.toolCalls + 1 } else st := by
  unfold codexEvent itemType
  dsimp only
  rw [if_neg (Bool.eq_false_iff.mp hturn), if_pos h]
  generalize getItem e "item".toList = v
  cases v with
  | obj nested =>
    dsimp only
    cases memberOf toolItemTypes (getItem nested "type".toList) with
    | error x => rfl
    | ok tool => cases tool <;> rfl
  | _ => rfl

/-- Events that look alike have the same effect. -/
theorem codexEvent_congr {e e' : Event} (h : view e = view e') (husage : hasUsage e = hasUsage e')
    (st : CodexState) : codexEvent st e = codexEvent st e' := by
  have htyp := typ_eq h
  have hview : ∀ types, ofType types e = ofType types e' := ofType_eq h
  by_cases hturn : isText "turn.completed".toList (getItem e "type".toList) = true
  · have hone : ofType ["turn.completed"] e = true := ofType_of_isText List.mem_cons_self hturn
    have htwo : ofType ["turn.completed", "result"] e = true :=
      ofType_of_isText List.mem_cons_self hturn
    have hnumbers := congrArg View.usage h
    simp only [view, ← hview, htwo, if_true] at hnumbers
    simp only [hasUsage, ← hview, hone, Bool.true_and] at husage
    rw [codexEvent_turn hturn, codexEvent_turn (htyp ▸ hturn), husage, hnumbers]
  rw [Bool.not_eq_true] at hturn
  by_cases hitem : isText "item.completed".toList (getItem e "type".toList) = true
  · have hone : ofType ["item.completed"] e = true := ofType_of_isText List.mem_cons_self hitem
    have hitems := congrArg View.itemType h
    simp only [view, ← hview, hone, if_true] at hitems
    rw [codexEvent_item hturn hitem, codexEvent_item (htyp ▸ hturn) (htyp ▸ hitem), hitems]
  · unfold codexEvent
    dsimp only
    rw [← htyp, if_neg (Bool.eq_false_iff.mp hturn), if_neg hitem,
      if_neg (Bool.eq_false_iff.mp hturn), if_neg hitem]
    cases hm : memberOf ["turn.failed".toList, "error".toList] (getItem e "type".toList) with
    | error x => rfl
    | ok failed =>
      cases failed with
      | false => rfl
      | true =>
        obtain ⟨u, -, hany⟩ := Exc.bind_ok hm
        have hone : ofType ["turn.failed", "error"] e = true := Except.ok.inj hany
        have hcode := congrArg View.errorCode h
        simp only [view, ← hview, hone, if_true, Option.some.injEq] at hcode
        show Except.ok _ = Except.ok _
        rw [hcode]

theorem foldlM_codexEvent_congr {events events' : List Event}
    (h : events.map view = events'.map view) (husage : events.map hasUsage = events'.map hasUsage)
    (st : CodexState) : events.foldlM codexEvent st = events'.foldlM codexEvent st := by
  induction events generalizing events' st with
  | nil =>
    obtain rfl := List.map_eq_nil_iff.mp h.symm
    rfl
  | cons e events ih =>
    cases events' with
    | nil => cases h
    | cons e' events' =>
      obtain ⟨he, htail⟩ := List.cons.inj h
      obtain ⟨hu, hutail⟩ := List.cons.inj husage
      rw [List.foldlM_cons, List.foldlM_cons, codexEvent_congr he hu]
      exact congrArg _ (funext fun st => ih htail hutail st)

/-! ## What both parsers do in the end -/

/-- The metadata, with an output that may be too long. -/
def withOutput (metadata : Except Exc Meta) (output : Text) : Except Exc ParsedVendorTelemetry := do
  let metadata ← metadata
  let output ← boundedOutput output
  pure ⟨output, metadata⟩

theorem withOutput_ok {x : Except Exc Meta} {output : Text} {r : ParsedVendorTelemetry}
    (h : withOutput x output = .ok r) : x = .ok r.metadata := by
  obtain ⟨m, hm, h⟩ := Exc.bind_ok h
  obtain ⟨o, -, h⟩ := Exc.bind_ok h
  rw [hm, ← Except.ok.inj h]

theorem map_withOutput {x : Except Exc Meta} {output : Text}
    (h : output.encode.length ≤ maxFinalOutputBytes) :
    (withOutput x output).map ParsedVendorTelemetry.metadata = x := by
  cases x with
  | error e => rfl
  | ok m =>
    unfold withOutput
    simp only [bind, Except.bind, boundedOutput_ok h]
    rfl

theorem SameTelemetry.of_withOutput {x : Except Exc Meta} {output output' : Text} :
    SameTelemetry (withOutput x output) (withOutput x output') := by
  intro r r' hr hr'
  have heq : r.metadata = r'.metadata :=
    Except.ok.inj ((withOutput_ok hr).symm.trans (withOutput_ok hr'))
  exact ⟨heq, fun c status durationMs => by rw [heq]⟩

theorem SameTelemetry.of_error {a b : Except Exc ParsedVendorTelemetry}
    (h : (∃ x, a = .error x) ∨ ∃ x, b = .error x) : SameTelemetry a b := by
  intro r r' hr hr'
  rcases h with ⟨x, rfl⟩ | ⟨x, rfl⟩
  · cases hr
  · cases hr'

section Parsers

variable {depth : Nat} {payload payload' : Text} {lastMessage lastMessage' cliVersion schema : Text}
  {exitCode : Int} {streamTruncated attestation : Bool}

/-- The metadata of the events of Codex. -/
def codexMeta (cliVersion schema : Text) (exitCode : Int) (streamTruncated : Bool)
    (events : List Event) (parsePartial : Bool) : Except Exc Meta := do
  let st ← events.foldlM codexEvent codexStart
  let done := exitCode = 0 ∧ st.terminalSeen = true ∧ st.safeErrorCode = none ∧
    streamTruncated = false
  let safeErrorCode :=
    if streamTruncated then some "output_limit".toList
    else if exitCode ≠ 0 ∧ st.safeErrorCode = none then some "process_exit".toList
    else st.safeErrorCode
  let incomplete := parsePartial || st.unknownEvent || streamTruncated || st.usage.isNone
  makeMeta (metaOf "codex".toList cliVersion schema
    (if done then "done".toList else "failed".toList) safeErrorCode exitCode streamTruncated
    (st.usage.getD []) st.toolCalls events.length
    (if incomplete then "partial".toList else "ok".toList))

theorem parseCodexJsonl_eq
    (hschema : eventSchema "codex".toList (some cliVersion) false = some schema)
    {events : List Event} {p : Bool} (hlines : jsonLines depth payload = .ok (events, p)) :
    parseCodexJsonl depth payload lastMessage cliVersion exitCode streamTruncated =
      withOutput (codexMeta cliVersion schema exitCode streamTruncated events p) lastMessage := by
  unfold parseCodexJsonl withOutput codexMeta
  rw [hschema]
  dsimp only
  rw [hlines]
  simp only [bind_assoc]
  rfl

theorem codexMeta_congr {events events' : List Event} (h : events.map view = events'.map view)
    (husage : events.map hasUsage = events'.map hasUsage) (p : Bool) :
    codexMeta cliVersion schema exitCode streamTruncated events p =
      codexMeta cliVersion schema exitCode streamTruncated events' p := by
  have hlength : events.length = events'.length := by
    have := congrArg List.length h
    rwa [List.length_map, List.length_map] at this
  unfold codexMeta
  rw [foldlM_codexEvent_congr h husage, hlength]

/-- **Codex.** Outputs that look alike have the same metadata. -/
theorem parseCodexJsonl_alike (hlimits : WithinLimits depth payload)
    (hlimits' : WithinLimits depth payload') (h : AlikeLines depth payload payload') :
    SameTelemetry (parseCodexJsonl depth payload lastMessage cliVersion exitCode streamTruncated)
        (parseCodexJsonl depth payload' lastMessage' cliVersion exitCode streamTruncated) ∧
      (ShallowLines depth payload → ShallowLines depth payload' →
        lastMessage.encode.length ≤ maxFinalOutputBytes →
        lastMessage'.encode.length ≤ maxFinalOutputBytes →
        (parseCodexJsonl depth payload lastMessage cliVersion exitCode streamTruncated).map
            ParsedVendorTelemetry.metadata =
          (parseCodexJsonl depth payload' lastMessage' cliVersion exitCode streamTruncated).map
            ParsedVendorTelemetry.metadata) := by
  cases hschema : eventSchema "codex".toList (some cliVersion) false with
  | none =>
    have hparse : ∀ payload lastMessage,
        parseCodexJsonl depth payload lastMessage cliVersion exitCode streamTruncated = (do
          let output ← boundedOutput lastMessage
          let metadata ← unsupportedMeta "codex".toList cliVersion exitCode streamTruncated
          pure ⟨output, metadata⟩) := by
      intro payload lastMessage
      unfold parseCodexJsonl
      rw [hschema]
    rw [hparse, hparse]
    constructor
    · intro r r' hr hr'
      obtain ⟨_, -, hr⟩ := Exc.bind_ok hr
      obtain ⟨m, hm, hr⟩ := Exc.bind_ok hr
      obtain ⟨_, -, hr'⟩ := Exc.bind_ok hr'
      obtain ⟨m', hm', hr'⟩ := Exc.bind_ok hr'
      obtain rfl := Except.ok.inj (hm.symm.trans hm')
      obtain rfl := Except.ok.inj hr
      obtain rfl := Except.ok.inj hr'
      exact ⟨rfl, fun _ _ _ => rfl⟩
    · intro _ _ hlast hlast'
      rw [boundedOutput_ok hlast, boundedOutput_ok hlast']
      cases unsupportedMeta "codex".toList cliVersion exitCode streamTruncated <;> rfl
  | some schema =>
    by_cases hshallow : ShallowLines depth payload
    · by_cases hshallow' : ShallowLines depth payload'
      · have hlines := jsonLines_exact hlimits hshallow
        rw [h.lines] at hlines
        rw [parseCodexJsonl_eq hschema hlines,
          parseCodexJsonl_eq hschema (jsonLines_exact hlimits' hshallow'),
          codexMeta_congr h.events h.usage]
        exact ⟨SameTelemetry.of_withOutput, fun _ _ hlast hlast' => by
          rw [map_withOutput hlast, map_withOutput hlast']⟩
      · refine ⟨SameTelemetry.of_error (.inr ?_), fun _ hs => absurd hs hshallow'⟩
        obtain ⟨x, hx⟩ := jsonLines_error hshallow'
        refine ⟨x, ?_⟩
        unfold parseCodexJsonl
        rw [hschema]
        dsimp only
        rw [hx]
        rfl
    · refine ⟨SameTelemetry.of_error (.inl ?_), fun hs => absurd hs hshallow⟩
      obtain ⟨x, hx⟩ := jsonLines_error hshallow
      refine ⟨x, ?_⟩
      unfold parseCodexJsonl
      rw [hschema]
      dsimp only
      rw [hx]
      rfl

/-! ## Claude -/

/-- The metadata of the events of Claude. -/
def claudeMeta (cliVersion schema : Text) (exitCode : Int) (streamTruncated : Bool)
    (events : List Event) (parsePartial : Bool) : Except Exc Meta := do
  let result := lastResult events
  let usage := result.bind fun e => numericUsage (getItem e "usage".toList)
  let failed := resultIsError result exitCode || decide (exitCode ≠ 0) || streamTruncated
  let safeErrorCode ← resultErrorCode streamTruncated failed (errorStatus result)
  let incomplete := parsePartial || (resultOutput result).2 || streamTruncated ||
    result.isNone || usage.isNone
  makeMeta (metaOf "claude".toList cliVersion schema
    (if failed then "failed".toList else "done".toList) safeErrorCode exitCode streamTruncated
    (usage.getD []) (events.map toolUses).sum events.length
    (if incomplete then "partial".toList else "ok".toList))

theorem parseClaudeJson_eq
    (hschema : eventSchema "claude".toList (some cliVersion) attestation = some schema)
    {events : List Event} {p : Bool} (hpayload : jsonPayload depth payload = .ok (events, p)) :
    parseClaudeJson depth payload cliVersion exitCode streamTruncated attestation =
      withOutput (claudeMeta cliVersion schema exitCode streamTruncated events p)
        (resultOutput (lastResult events)).1 := by
  unfold parseClaudeJson withOutput claudeMeta errorStatus
  rw [hschema]
  dsimp only
  rw [hpayload]
  simp only [bind_assoc]
  rfl

theorem lastResult_map (events : List Event) :
    (lastResult events).map view =
      ((events.map view).reverse.find? fun v => isText "result".toList v.typ) := by
  rw [lastResult, ← List.map_reverse, List.find?_map]
  rfl

theorem ofType_lastResult {events : List Event} {e : Event} (h : lastResult events = some e)
    {types : List String} (htypes : "result" ∈ types) : ofType types e = true := by
  have hfind : events.reverse.find? (fun e => isText "result".toList (getItem e "type".toList)) =
      some e := h
  have htext := List.find?_some hfind
  exact ofType_of_isText htypes htext

/-- Two results, or none, that look alike. -/
structure AlikeResult (result result' : Option Event) : Prop where
  isNone : result.isNone = result'.isNone
  usage : (result.bind fun e => numericUsage (getItem e "usage".toList)) =
    result'.bind fun e => numericUsage (getItem e "usage".toList)
  isError : ∀ exitCode, resultIsError result exitCode = resultIsError result' exitCode
  status : errorStatus result = errorStatus result'
  notText : (resultOutput result).2 = (resultOutput result').2

theorem resultOutput_some (e : Event) : (resultOutput (some e)).2 = !resultIsText e := by
  unfold resultOutput resultIsText
  dsimp only
  cases get e "result".toList with
  | none => rfl
  | some v => cases v <;> rfl

theorem alikeResult_lastResult {events events' : List Event}
    (h : events.map view = events'.map view) :
    AlikeResult (lastResult events) (lastResult events') := by
  have hmap : (lastResult events).map view = (lastResult events').map view := by
    rw [lastResult_map, lastResult_map, h]
  cases hr : lastResult events with
  | none =>
    rw [hr] at hmap
    obtain hr' : lastResult events' = none := Option.map_eq_none_iff.mp hmap.symm
    rw [hr']
    exact ⟨rfl, rfl, fun _ => rfl, rfl, rfl⟩
  | some e =>
    rw [hr] at hmap
    obtain ⟨e', hr', hview⟩ := Option.map_eq_some_iff.mp hmap.symm
    rw [hr']
    have hone : ofType ["result"] e = true := ofType_lastResult hr (by simp)
    have hone' : ofType ["result"] e' = true := ofType_lastResult hr' (by simp)
    have htwo : ofType ["turn.completed", "result"] e = true := ofType_lastResult hr (by simp)
    have htwo' : ofType ["turn.completed", "result"] e' = true := ofType_lastResult hr' (by simp)
    have husage := congrArg View.usage hview
    have herror := congrArg View.isError hview
    have hstatus := congrArg View.apiErrorStatus hview
    have htext := congrArg View.resultIsText hview
    simp only [view, hone, hone', htwo, htwo', if_true] at husage herror hstatus htext
    refine ⟨rfl, husage.symm, fun exitCode => ?_, hstatus.symm, ?_⟩
    · show truthy _ = truthy _
      rw [herror]
    · rw [resultOutput_some, resultOutput_some, htext]

theorem toolUses_eq (e : Event) :
    toolUses e = (view e).blockTypes.countP (isText "tool_use".toList) := by
  have hassistant : ofType ["assistant"] e = isText "assistant".toList (getItem e "type".toList) :=
    Bool.or_false _
  unfold toolUses view
  dsimp only
  rw [hassistant]
  split
  · unfold blockTypes
    cases getItem e "message".toList with
    | obj message =>
      dsimp only
      cases getItem message "content".toList with
      | arr content =>
        dsimp only
        rw [List.countP_map]
        refine List.countP_congr fun block _ => ?_
        cases block <;> simp [blockType, isText]
      | _ => rfl
    | _ => rfl
  · rfl

theorem claudeMeta_congr {events events' : List Event} {p p' : Bool}
    (h : events.map view = events'.map view) (hp : events ≠ [] → p = p') :
    claudeMeta cliVersion schema exitCode streamTruncated events p =
      claudeMeta cliVersion schema exitCode streamTruncated events' p' := by
  have hresult := alikeResult_lastResult h
  have hlength : events.length = events'.length := by
    have := congrArg List.length h
    rwa [List.length_map, List.length_map] at this
  have htools : (events.map toolUses).sum = (events'.map toolUses).sum := by
    have hcount : ∀ es : List Event, es.map toolUses =
        (es.map view).map fun v => v.blockTypes.countP (isText "tool_use".toList) := by
      intro es
      rw [List.map_map]
      exact List.map_congr_left fun e _ => toolUses_eq e
    rw [hcount, hcount, h]
  have hincomplete : (p || (resultOutput (lastResult events)).2 || streamTruncated ||
      (lastResult events).isNone ||
      ((lastResult events).bind fun e => numericUsage (getItem e "usage".toList)).isNone) =
      (p' || (resultOutput (lastResult events')).2 || streamTruncated ||
      (lastResult events').isNone ||
      ((lastResult events').bind fun e => numericUsage (getItem e "usage".toList)).isNone) := by
    rw [hresult.notText, hresult.usage, hresult.isNone]
    cases hr : (lastResult events').isNone with
    | true => simp
    | false =>
      have hne : events ≠ [] := by
        rintro rfl
        have hnone := hresult.isNone
        rw [hr] at hnone
        cases hnone
      rw [hp hne]
  unfold claudeMeta
  dsimp only
  rw [hincomplete, hresult.usage, hresult.isError, hresult.status, hlength, htools]

/-- **Claude.** Outputs that look alike have the same metadata. -/
theorem parseClaudeJson_alike (hlimits : WithinLimits depth payload)
    (hlimits' : WithinLimits depth payload') (h : AlikePayload depth payload payload') :
    SameTelemetry (parseClaudeJson depth payload cliVersion exitCode streamTruncated attestation)
        (parseClaudeJson depth payload' cliVersion exitCode streamTruncated attestation) ∧
      (ShallowPayload depth payload → ShallowPayload depth payload' →
        (resultOutput (lastResult (payloadEvents depth payload))).1.encode.length ≤
          maxFinalOutputBytes →
        (resultOutput (lastResult (payloadEvents depth payload'))).1.encode.length ≤
          maxFinalOutputBytes →
        (parseClaudeJson depth payload cliVersion exitCode streamTruncated attestation).map
            ParsedVendorTelemetry.metadata =
          (parseClaudeJson depth payload' cliVersion exitCode streamTruncated attestation).map
            ParsedVendorTelemetry.metadata) := by
  cases hschema : eventSchema "claude".toList (some cliVersion) attestation with
  | none =>
    have hparse : ∀ payload,
        parseClaudeJson depth payload cliVersion exitCode streamTruncated attestation =
          withOutput (unsupportedMeta "claude".toList cliVersion exitCode streamTruncated) [] := by
      intro payload
      unfold parseClaudeJson
      rw [hschema]
      cases unsupportedMeta "claude".toList cliVersion exitCode streamTruncated <;> rfl
    rw [hparse, hparse]
    exact ⟨SameTelemetry.of_withOutput, fun _ _ _ _ => rfl⟩
  | some schema =>
    by_cases hshallow : ShallowPayload depth payload
    · by_cases hshallow' : ShallowPayload depth payload'
      · obtain ⟨p, hp, hmissing⟩ := jsonPayload_exact hlimits hshallow
        obtain ⟨p', hp', hmissing'⟩ := jsonPayload_exact hlimits' hshallow'
        have hsame : payloadEvents depth payload ≠ [] → p = p' := by
          intro hne
          have hne' : payloadEvents depth payload' ≠ [] := by
            intro hnil
            have hevents := h.events
            rw [hnil, List.map_nil] at hevents
            exact hne (List.map_eq_nil_iff.mp hevents)
          rw [hmissing hne, hmissing' hne', ← h.whole]
          cases hw : wholeEvents depth payload with
          | none => rw [h.lines hw]
          | some es => rfl
        rw [parseClaudeJson_eq hschema hp, parseClaudeJson_eq hschema hp',
          claudeMeta_congr h.events hsame]
        exact ⟨SameTelemetry.of_withOutput, fun _ _ hout hout' => by
          rw [map_withOutput hout, map_withOutput hout']⟩
      · refine ⟨SameTelemetry.of_error (.inr ?_), fun _ hs => absurd hs hshallow'⟩
        obtain ⟨x, hx⟩ := jsonPayload_error hshallow'
        refine ⟨x, ?_⟩
        unfold parseClaudeJson
        rw [hschema]
        dsimp only
        rw [hx]
        rfl
    · refine ⟨SameTelemetry.of_error (.inl ?_), fun hs => absurd hs hshallow⟩
      obtain ⟨x, hx⟩ := jsonPayload_error hshallow
      refine ⟨x, ?_⟩
      unfold parseClaudeJson
      rw [hschema]
      dsimp only
      rw [hx]
      rfl

end Parsers

/-- **Telemetry is free of content.** For both vendors, outputs that look alike have the same
metadata where both parsers return; and unless a text is too deep for the decoder or an output too
long, one parser returns when the other does. -/
theorem telemetry_content_free (depth : Nat) (payload payload' lastMessage lastMessage' : Text)
    (cliVersion : Text) (exitCode : Int) (streamTruncated attestation : Bool)
    (hlimits : WithinLimits depth payload) (hlimits' : WithinLimits depth payload') :
    (AlikeLines depth payload payload' →
      SameTelemetry (parseCodexJsonl depth payload lastMessage cliVersion exitCode streamTruncated)
          (parseCodexJsonl depth payload' lastMessage' cliVersion exitCode streamTruncated) ∧
        (ShallowLines depth payload → ShallowLines depth payload' →
          lastMessage.encode.length ≤ maxFinalOutputBytes →
          lastMessage'.encode.length ≤ maxFinalOutputBytes →
          (parseCodexJsonl depth payload lastMessage cliVersion exitCode streamTruncated).map
              ParsedVendorTelemetry.metadata =
            (parseCodexJsonl depth payload' lastMessage' cliVersion exitCode streamTruncated).map
              ParsedVendorTelemetry.metadata)) ∧
    (AlikePayload depth payload payload' →
      SameTelemetry (parseClaudeJson depth payload cliVersion exitCode streamTruncated attestation)
          (parseClaudeJson depth payload' cliVersion exitCode streamTruncated attestation) ∧
        (ShallowPayload depth payload → ShallowPayload depth payload' →
          (resultOutput (lastResult (payloadEvents depth payload))).1.encode.length ≤
            maxFinalOutputBytes →
          (resultOutput (lastResult (payloadEvents depth payload'))).1.encode.length ≤
            maxFinalOutputBytes →
          (parseClaudeJson depth payload cliVersion exitCode streamTruncated attestation).map
              ParsedVendorTelemetry.metadata =
            (parseClaudeJson depth payload' cliVersion exitCode streamTruncated attestation).map
              ParsedVendorTelemetry.metadata)) :=
  ⟨parseCodexJsonl_alike hlimits hlimits', parseClaudeJson_alike hlimits hlimits'⟩

instance (depth : Nat) (payload : Text) : Decidable (WithinLimits depth payload) :=
  decidable_of_iff (payload.encode.length ≤ maxEventBytes ∧ payload.lines.length ≤ maxEventLines ∧
      ∀ es ∈ wholeEvents depth payload, es.length ≤ maxEventLines)
    ⟨fun h => ⟨h.1, h.2.1, h.2.2⟩, fun h => ⟨h.bytes, h.lines, h.events⟩⟩

/-- Two results that differ in their text. -/
theorem telemetry_content_free_result :
    SameTelemetry
      (parseClaudeJson 100 "\x7b\"type\":\"result\",\"result\":\"a\"\x7d".toList
        "2.1.198 (Claude Code)".toList 0 false true)
      (parseClaudeJson 100 "\x7b\"type\":\"result\",\"result\":\"b\"\x7d".toList
        "2.1.198 (Claude Code)".toList 0 false true) :=
  ((telemetry_content_free 100 "\x7b\"type\":\"result\",\"result\":\"a\"\x7d".toList
    "\x7b\"type\":\"result\",\"result\":\"b\"\x7d".toList [] []
    "2.1.198 (Claude Code)".toList 0 false true (by decide +kernel) (by decide +kernel)).2
    ⟨by decide +kernel, by decide +kernel, fun h => absurd h (by decide +kernel)⟩).1

/-- Two turns, the second with this usage. -/
def turns (usage : String) : Text :=
  "\x7b\"type\":\"turn.completed\",\"usage\":\x7b\"input_tokens\":5\x7d\x7d\n".toList ++
    "\x7b\"type\":\"turn.completed\",\"usage\":".toList ++ usage.toList ++ "\x7d".toList

/-- A result on a line of its own, between two lines. -/
def between (first last : String) : Text :=
  first.toList ++
    "\n\x7b\"type\":\"result\",\"usage\":\x7b\"input_tokens\":5\x7d\x7d\n".toList ++ last.toList

/-- **More is seen.** Whether a turn has an object for its usage, and whether an output is one
value, show in the metadata. -/
theorem telemetry_shows_shape :
    (WithinLimits 100 (turns "null") ∧ WithinLimits 100 (turns "\x7b\x7d") ∧
      (lineEvents 100 (turns "null")).map view = (lineEvents 100 (turns "\x7b\x7d")).map view ∧
      objectLines 100 (turns "null") = objectLines 100 (turns "\x7b\x7d") ∧
      (parseCodexJsonl 100 (turns "null") [] "codex-cli 0.144.5".toList 0 false).toOption.map
        (fun r => r.metadata.inputTokens) = some (some 5) ∧
      (parseCodexJsonl 100 (turns "\x7b\x7d") [] "codex-cli 0.144.5".toList 0 false).toOption.map
        (fun r => r.metadata.inputTokens) = some none) ∧
    (WithinLimits 100 (between "[" "]") ∧ WithinLimits 100 (between "-" "-") ∧
      (payloadEvents 100 (between "[" "]")).map view =
        (payloadEvents 100 (between "-" "-")).map view ∧
      objectLines 100 (between "[" "]") = objectLines 100 (between "-" "-") ∧
      (parseClaudeJson 100 (between "[" "]") "2.1.198 (Claude Code)".toList 0 false
        true).toOption.map
        (fun r => r.metadata.telemetryStatus) = some "ok".toList ∧
      (parseClaudeJson 100 (between "-" "-") "2.1.198 (Claude Code)".toList 0 false
        true).toOption.map
        (fun r => r.metadata.telemetryStatus) = some "partial".toList) := by
  refine ⟨⟨?_, ?_, ?_, ?_, ?_, ?_⟩, ?_, ?_, ?_, ?_, ?_, ?_⟩
  all_goals decide +kernel

end VendorTelemetry
