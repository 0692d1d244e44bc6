import AlmightyReview.Review.Metadata

/-!
# When telemetry is read

* `EventSafe`: the values of an event that are looked up in a set can be hashed. An event is
  processed exactly when it is safe (`codexEvent_ok`, `codexEvent_error`), and so is a run of events
  (`foldlM_codexEvent_ok`).
* `lineEvents`, `payloadEvents`: the events of an output whose lines are not too deep for the
  decoder (`jsonLines_ok`, `jsonPayload_ok`).
* `parse_returns_iff`: the outputs for which both parsers return.
-/

namespace VendorTelemetry

open Json (Loaded get)

/-! ## Lookups -/

theorem checkHash_ok {v : Loaded} (h : Hashable v) : checkHash v = .ok () := by
  cases v with
  | arr xs => exact h.elim
  | obj fields => exact h.elim
  | _ => rfl

theorem checkHash_error {v : Loaded} (h : ¬Hashable v) : ∃ e, checkHash v = .error e := by
  cases v with
  | arr xs => exact ⟨_, rfl⟩
  | obj fields => exact ⟨_, rfl⟩
  | _ => exact absurd trivial h

theorem memberOf_ok {texts : List Text} {v : Loaded} (h : Hashable v) :
    memberOf texts v = .ok (texts.any fun text => isText text v) := by
  rw [memberOf, checkHash_ok h]
  rfl

theorem memberOf_error {texts : List Text} {v : Loaded} (h : ¬Hashable v) :
    ∃ e, memberOf texts v = .error e := by
  obtain ⟨e, he⟩ := checkHash_error h
  exact ⟨e, by rw [memberOf, he]; rfl⟩

theorem hashable_of_isText {text : Text} {v : Loaded} (h : isText text v = true) : Hashable v := by
  cases v with
  | str s => trivial
  | _ => cases h

theorem safeErrorFromStatus_ok {v : Loaded} (h : Hashable v) :
    ∃ code ∈ safeErrorCodes, safeErrorFromStatus v = .ok code := by
  rw [safeErrorFromStatus, checkHash_ok h]
  simp only [bind, Except.bind]
  split
  · exact ⟨_, by decide +kernel, rfl⟩
  split
  · exact ⟨_, by decide +kernel, rfl⟩
  split
  · exact ⟨_, by decide +kernel, rfl⟩
  · exact ⟨_, by decide +kernel, rfl⟩

theorem safeErrorFromEvent_mem (e : Event) : safeErrorFromEvent e ∈ safeErrorCodes := by
  unfold safeErrorFromEvent
  dsimp only
  repeat' split
  all_goals decide +kernel

/-! ## Codex events -/

/-- **Safe**: the type of the event can be hashed, and so can that of an item that is complete. -/
structure EventSafe (e : Event) : Prop where
  typ : Hashable (getItem e "type".toList)
  item : isText "item.completed".toList (getItem e "type".toList) = true →
    ∀ nested, getItem e "item".toList = .obj nested → Hashable (getItem nested "type".toList)

/-- The counts of tokens after an event. -/
def usageAfter (usage : Option Usage) (e : Event) : Option Usage :=
  if isText "turn.completed".toList (getItem e "type".toList) then
    match getItem e "usage".toList with
    | .obj fields => numericUsage (.obj fields)
    | _ => usage
  else usage

/-- What an event does. -/
structure Advances (e : Event) (st st' : CodexState) : Prop where
  usage : st'.usage = usageAfter st.usage e
  toolCalls : st'.toolCalls ≤ st.toolCalls + 1
  code : ∀ c ∈ st'.safeErrorCode, c ∈ st.safeErrorCode ∨ c ∈ safeErrorCodes

theorem codexEvent_ok {e : Event} (h : EventSafe e) (st : CodexState) :
    ∃ st', codexEvent st e = .ok st' ∧ Advances e st st' := by
  have hother : isText "turn.completed".toList (getItem e "type".toList) = false →
      usageAfter st.usage e = st.usage := fun ht => by rw [usageAfter, ht]; rfl
  unfold codexEvent
  dsimp only
  by_cases hturn : isText "turn.completed".toList (getItem e "type".toList) = true
  · rw [if_pos hturn]
    split
    · next fields hu =>
      refine ⟨_, rfl, ?_, Nat.le_succ _, fun c hc => .inl hc⟩
      rw [usageAfter, if_pos hturn, hu]
    · next hu =>
      refine ⟨_, rfl, ?_, Nat.le_succ _, fun c hc => .inl hc⟩
      rw [usageAfter, if_pos hturn]
      split
      · next fields hu' => exact absurd hu' (hu fields)
      · rfl
  rw [if_neg hturn]
  have husage := hother (Bool.not_eq_true _ ▸ hturn)
  by_cases hitem : isText "item.completed".toList (getItem e "type".toList) = true
  · rw [if_pos hitem]
    split
    · next nested hn =>
      rw [memberOf_ok (h.item hitem nested hn)]
      simp only [bind, Except.bind]
      split
      · exact ⟨_, rfl, husage.symm, le_rfl, fun c hc => .inl hc⟩
      · exact ⟨_, rfl, husage.symm, Nat.le_succ _, fun c hc => .inl hc⟩
    · exact ⟨_, rfl, husage.symm, Nat.le_succ _, fun c hc => .inl hc⟩
  rw [if_neg hitem, memberOf_ok h.typ]
  simp only [bind, Except.bind]
  split
  · refine ⟨_, rfl, husage.symm, Nat.le_succ _, fun c hc => .inr ?_⟩
    obtain rfl := Option.mem_some_iff.mp hc
    exact safeErrorFromEvent_mem e
  · rw [memberOf_ok h.typ]
    dsimp only
    split
    · exact ⟨_, rfl, husage.symm, Nat.le_succ _, fun c hc => .inl hc⟩
    · exact ⟨_, rfl, husage.symm, Nat.le_succ _, fun c hc => .inl hc⟩

theorem codexEvent_error {e : Event} (h : ¬EventSafe e) (st : CodexState) :
    ∃ x, codexEvent st e = .error x := by
  have hnot : ∀ {text : Text}, ¬Hashable (getItem e "type".toList) →
      ¬isText text (getItem e "type".toList) = true := fun ht hs => ht (hashable_of_isText hs)
  unfold codexEvent
  dsimp only
  by_cases htyp : Hashable (getItem e "type".toList)
  · -- then the item has a type without a hash
    have hitem : ∃ nested, isText "item.completed".toList (getItem e "type".toList) = true ∧
        getItem e "item".toList = .obj nested ∧ ¬Hashable (getItem nested "type".toList) := by
      by_contra hno
      push Not at hno
      exact h ⟨htyp, fun hi nested hn => hno nested hi hn⟩
    obtain ⟨nested, hi, hn, hhash⟩ := hitem
    have hturn : ¬isText "turn.completed".toList (getItem e "type".toList) = true := by
      intro hturn
      cases hv : getItem e "type".toList with
      | str s =>
        rw [hv] at hi hturn
        simp only [isText, beq_iff_eq] at hi hturn
        rw [hi] at hturn
        exact absurd hturn (by decide +kernel)
      | _ =>
        rw [hv] at hi
        cases hi
    obtain ⟨x, hx⟩ := @memberOf_error toolItemTypes _ hhash
    rw [if_neg hturn, if_pos hi, hn]
    simp only [hx, bind, Except.bind]
    exact ⟨x, rfl⟩
  · obtain ⟨x, hx⟩ := @memberOf_error ["turn.failed".toList, "error".toList] _ htyp
    rw [if_neg (hnot htyp), if_neg (hnot htyp), hx]
    exact ⟨x, rfl⟩

/-- The counts of tokens after the events. -/
def codexUsage (events : List Event) : Option Usage := events.foldl usageAfter none

/-- What a run of events does. -/
structure Runs (events : List Event) (st st' : CodexState) : Prop where
  usage : st'.usage = events.foldl usageAfter st.usage
  toolCalls : st'.toolCalls ≤ st.toolCalls + events.length
  code : ∀ c ∈ st'.safeErrorCode, c ∈ st.safeErrorCode ∨ c ∈ safeErrorCodes

/-- **A run of safe events** is processed. -/
theorem foldlM_codexEvent_ok {events : List Event} (h : ∀ e ∈ events, EventSafe e)
    (st : CodexState) : ∃ st', events.foldlM codexEvent st = .ok st' ∧ Runs events st st' := by
  induction events generalizing st with
  | nil => exact ⟨st, rfl, rfl, le_rfl, fun c hc => .inl hc⟩
  | cons e events ih =>
    obtain ⟨st₁, h₁, hadv⟩ := codexEvent_ok (h e List.mem_cons_self) st
    obtain ⟨st', h', hruns⟩ := ih (fun e he => h e (List.mem_cons_of_mem _ he)) st₁
    refine ⟨st', ?_, ?_, ?_, fun c hc => ?_⟩
    · rw [List.foldlM_cons, h₁]
      exact h'
    · rw [hruns.usage, hadv.usage, List.foldl_cons]
    · have := hadv.toolCalls
      have := hruns.toolCalls
      rw [List.length_cons]
      omega
    · exact (hruns.code c hc).elim (hadv.code c) .inr

theorem foldlM_codexEvent_error {events : List Event} (h : ¬∀ e ∈ events, EventSafe e)
    (st : CodexState) : ∃ x, events.foldlM codexEvent st = .error x := by
  induction events generalizing st with
  | nil => exact absurd (by simp) h
  | cons e events ih =>
    rw [List.foldlM_cons]
    by_cases he : EventSafe e
    · obtain ⟨st₁, h₁, -⟩ := codexEvent_ok he st
      rw [h₁]
      exact ih (fun hall => h fun e' he' => by
        rcases List.mem_cons.mp he' with rfl | he'
        · exact he
        · exact hall e' he') st₁
    · obtain ⟨x, hx⟩ := codexEvent_error he st
      exact ⟨x, by rw [hx]; rfl⟩

theorem short_foldl {events : List Event} {usage : Option Usage} (h : ∀ u ∈ usage, Short u) :
    ∀ u ∈ events.foldl usageAfter usage, Short u := by
  induction events generalizing usage with
  | nil => exact h
  | cons e events ih =>
    refine ih fun u hu => ?_
    unfold usageAfter at hu
    split at hu
    · split at hu
      · exact short_numericUsage hu
      · exact h u hu
    · exact h u hu

theorem short_codexUsage (events : List Event) : Short ((codexUsage events).getD []) := by
  cases hu : codexUsage events with
  | none => exact fun f hf => by cases hf
  | some usage => exact short_foldl (by simp) usage hu

/-! ## Events of an output -/

/-- The text has so many containers in one another that the decoder reaches the recursion limit. -/
def tooDeep (depth : Nat) (text : Text) : Bool :=
  match Json.loads depth text with
  | .error .recursionError => true
  | _ => false

/-- The lines of an output that are read. -/
def eventLines (payload : Text) : List Text :=
  (Text.lines (boundedEventPayload payload).1).take maxEventLines

/-- The event in a line. -/
def eventOf (depth : Nat) (line : Text) : Option Event := Json.fieldsOf (Json.loads depth line)

/-- The events in the lines of an output. -/
def lineEvents (depth : Nat) (payload : Text) : List Event :=
  (eventLines payload).filterMap (eventOf depth)

theorem eventsFrom_ok {depth i : Nat} {lines : List Text} (hi : i ≤ maxEventLines)
    (h : ∀ line ∈ lines.take (maxEventLines - i), tooDeep depth line = false) :
    ∃ p, eventsFrom depth i lines =
      .ok ((lines.take (maxEventLines - i)).filterMap (eventOf depth), p) := by
  induction lines generalizing i with
  | nil => exact ⟨false, by rw [List.take_nil]; rfl⟩
  | cons line lines ih =>
    rw [eventsFrom]
    by_cases hlast : maxEventLines ≤ i
    · rw [if_pos hlast, Nat.sub_eq_zero_of_le hlast]
      exact ⟨true, rfl⟩
    · have htake : (line :: lines).take (maxEventLines - i) =
          line :: lines.take (maxEventLines - (i + 1)) := by
        rw [show maxEventLines - i = (maxEventLines - (i + 1)) + 1 by omega, List.take_succ_cons]
      rw [htake] at h ⊢
      obtain ⟨p, hp⟩ := ih (by omega) fun l hl => h l (List.mem_cons_of_mem _ hl)
      have hline := h line List.mem_cons_self
      rw [if_neg hlast, hp]
      unfold tooDeep at hline
      split
      · next hdeep =>
        rw [hdeep] at hline
        cases hline
      · next fields hload =>
        refine ⟨p, ?_⟩
        have hsome : eventOf depth line = some fields := by
          rw [eventOf, hload]
          rfl
        rw [List.filterMap_cons_some hsome]
        rfl
      · next hother hobj =>
        have hnone : eventOf depth line = none := by
          unfold eventOf Json.fieldsOf
          split
          · next fields hload => exact absurd hload (hobj fields)
          · rfl
        rw [List.filterMap_cons_none hnone]
        exact ⟨true, rfl⟩

theorem eventsFrom_error {depth i : Nat} {lines : List Text}
    (h : ¬∀ line ∈ lines.take (maxEventLines - i), tooDeep depth line = false) :
    ∃ x, eventsFrom depth i lines = .error x := by
  induction lines generalizing i with
  | nil => exact absurd (by simp) h
  | cons line lines ih =>
    rw [eventsFrom]
    by_cases hlast : maxEventLines ≤ i
    · rw [Nat.sub_eq_zero_of_le hlast] at h
      exact absurd (by simp) h
    · rw [if_neg hlast]
      have htake : (line :: lines).take (maxEventLines - i) =
          line :: lines.take (maxEventLines - (i + 1)) := by
        rw [show maxEventLines - i = (maxEventLines - (i + 1)) + 1 by omega, List.take_succ_cons]
      rw [htake] at h
      by_cases hline : tooDeep depth line = true
      · unfold tooDeep at hline
        split at hline
        · next hload =>
          rw [hload]
          exact ⟨_, rfl⟩
        · cases hline
      · obtain ⟨x, hx⟩ := @ih (i + 1) fun hall => h fun l hl => by
          rcases List.mem_cons.mp hl with rfl | hl
          · exact Bool.not_eq_true _ ▸ hline
          · exact hall l hl
        rw [hx]
        split
        · exact ⟨_, rfl⟩
        · exact ⟨x, rfl⟩
        · exact ⟨x, rfl⟩

/-- No line of the output is too deep. -/
def ShallowLines (depth : Nat) (payload : Text) : Prop :=
  ∀ line ∈ eventLines payload, tooDeep depth line = false

theorem jsonLines_ok {depth : Nat} {payload : Text} (h : ShallowLines depth payload) :
    ∃ p, jsonLines depth payload = .ok (lineEvents depth payload, p) := by
  obtain ⟨p, hp⟩ := @eventsFrom_ok depth 0 _ (Nat.zero_le _) h
  refine ⟨(boundedEventPayload payload).2 || p, ?_⟩
  rw [jsonLines]
  simp only [hp, Except.map]
  rfl

theorem jsonLines_error {depth : Nat} {payload : Text} (h : ¬ShallowLines depth payload) :
    ∃ x, jsonLines depth payload = .error x := by
  obtain ⟨x, hx⟩ := @eventsFrom_error depth 0 _ h
  exact ⟨x, by rw [jsonLines]; simp only [hx, Except.map]⟩

/-- The output as one text, without blanks around it. -/
def strippedPayload (payload : Text) : Text := (boundedEventPayload payload).1.strip

/-- The events of an output that is one value, or else lines. -/
def payloadEvents (depth : Nat) (payload : Text) : List Event :=
  if strippedPayload payload = [] then []
  else
    match Json.loads depth (strippedPayload payload) with
    | .error _ => lineEvents depth (boundedEventPayload payload).1
    | .ok (.obj one) => [one]
    | .ok (.arr xs) => ((allObjects xs).getD []).take maxEventLines
    | .ok _ => []

/-- Neither the output is too deep nor, where its lines are read, one of these. -/
structure ShallowPayload (depth : Nat) (payload : Text) : Prop where
  whole : strippedPayload payload ≠ [] → tooDeep depth (strippedPayload payload) = false
  lines : strippedPayload payload ≠ [] → (Json.loads depth (strippedPayload payload)).isOk = false →
    ShallowLines depth (boundedEventPayload payload).1

theorem jsonPayload_ok {depth : Nat} {payload : Text} (h : ShallowPayload depth payload) :
    ∃ p, jsonPayload depth payload = .ok (payloadEvents depth payload, p) := by
  have hwhole := h.whole
  have hlines := h.lines
  unfold jsonPayload payloadEvents
  dsimp only
  unfold strippedPayload tooDeep at *
  by_cases hs : (boundedEventPayload payload).1.strip = []
  · rw [if_pos hs, if_pos hs]
    exact ⟨true, rfl⟩
  · have hwhole := hwhole hs
    have hlines := hlines hs
    rw [if_neg hs, if_neg hs]
    cases hl : Json.loads depth (boundedEventPayload payload).1.strip with
    | error e =>
      rw [hl] at hwhole hlines
      obtain ⟨p, hp⟩ := jsonLines_ok (hlines rfl)
      cases e with
      | recursionError => cases hwhole
      | decodeError => exact ⟨(boundedEventPayload payload).2 || p, by dsimp only; rw [hp]; rfl⟩
      | valueError => exact ⟨(boundedEventPayload payload).2 || p, by dsimp only; rw [hp]; rfl⟩
    | ok v =>
      cases v with
      | obj one => exact ⟨_, rfl⟩
      | arr xs =>
        dsimp only
        cases hx : allObjects xs with
        | none => exact ⟨true, rfl⟩
        | some one => exact ⟨_, rfl⟩
      | _ => exact ⟨true, rfl⟩

theorem jsonPayload_error {depth : Nat} {payload : Text} (h : ¬ShallowPayload depth payload) :
    ∃ x, jsonPayload depth payload = .error x := by
  unfold jsonPayload
  dsimp only
  by_cases hs : strippedPayload payload = []
  · exact absurd ⟨fun hne => absurd hs hne, fun hne => absurd hs hne⟩ h
  · have hs' : ¬(boundedEventPayload payload).1.strip = [] := hs
    rw [if_neg hs']
    cases hl : Json.loads depth (boundedEventPayload payload).1.strip with
    | ok v =>
      refine absurd ⟨fun _ => ?_, fun _ hok => ?_⟩ h
      · unfold tooDeep strippedPayload
        rw [hl]
      · unfold strippedPayload at hok
        rw [hl] at hok
        cases hok
    | error e =>
      by_cases he : e = .recursionError
      · subst he
        exact ⟨_, rfl⟩
      · have hdeep : tooDeep depth (strippedPayload payload) = false := by
          unfold tooDeep strippedPayload
          rw [hl]
          cases e with
          | recursionError => exact absurd rfl he
          | _ => rfl
        obtain ⟨x, hx⟩ := @jsonLines_error depth (boundedEventPayload payload).1 fun hlines =>
          h ⟨fun _ => hdeep, fun _ _ => hlines⟩
        cases e with
        | recursionError => exact absurd rfl he
        | _ => exact ⟨x, by dsimp only; rw [hx]; rfl⟩

/-! ## Bounds -/

theorem length_takeBytes (n : Nat) (s : Text) : (takeBytes n s).encode.length ≤ n := by
  fun_induction takeBytes n s with
  | case1 => exact Nat.zero_le _
  | case2 n c s hc ih =>
    unfold Text.encode at ih ⊢
    rw [List.flatMap_cons, List.length_append]
    omega
  | case3 => exact Nat.zero_le _

theorem length_boundedEventPayload (payload : Text) :
    (boundedEventPayload payload).1.length ≤ maxEventBytes := by
  unfold boundedEventPayload
  split
  · next h => exact (Text.length_encode payload).1.trans h
  · exact (Text.length_encode _).1.trans (length_takeBytes _ _)

theorem length_strip (s : Text) : s.strip.length ≤ s.length := by
  unfold Text.strip Text.rstrip Text.lstrip
  rw [List.length_reverse]
  refine (List.dropWhile_suffix _).length_le.trans ?_
  rw [List.length_reverse]
  exact (List.dropWhile_suffix _).length_le

/-- The events of an output are few, and none has many parts. -/
structure Few (events : List Event) : Prop where
  length : events.length ≤ maxEventLines
  weight : ∀ e ∈ events, Json.weightFields e ≤ maxEventBytes

theorem few_lineEvents (depth : Nat) (payload : Text) : Few (lineEvents depth payload) := by
  constructor
  · exact (List.length_filterMap_le _ _).trans (List.length_take_le _ _)
  · intro e he
    obtain ⟨line, hline, he⟩ := List.mem_filterMap.mp he
    have hmem : line ∈ Text.lines (boundedEventPayload payload).1 := List.mem_of_mem_take hline
    have hlen : line.length ≤ (boundedEventPayload payload).1.length := by
      have := (List.sublist_flatten_of_mem hmem).length_le
      rwa [Text.flatten_lines] at this
    have hbound := length_boundedEventPayload payload
    obtain ⟨fields, hload⟩ := Json.exists_fields (r := Json.loads depth line) (by
      rw [eventOf] at he
      rw [he]
      rfl)
    rw [eventOf, hload] at he
    obtain rfl : fields = e := Option.some.inj he
    have hweight : Json.weightFields fields + 1 ≤ line.length := Json.loads_weight hload
    omega

theorem weight_allObjects {xs : List Loaded} {es : List Event} (h : allObjects xs = some es) :
    ∀ e ∈ es, Json.weightFields e ≤ Json.weightEach xs := by
  induction xs generalizing es with
  | nil =>
    cases h
    simp
  | cons x xs ih =>
    cases x with
    | obj fields =>
      rw [allObjects] at h
      obtain ⟨es', hes, rfl⟩ := Option.map_eq_some_iff.mp h
      intro e he
      have hhead : Json.weightEach (.obj fields :: xs) =
          Json.weightFields fields + 1 + Json.weightEach xs := rfl
      rcases List.mem_cons.mp he with rfl | he
      · omega
      · have := ih hes e he
        omega
    | _ => cases h

theorem few_payloadEvents (depth : Nat) (payload : Text) : Few (payloadEvents depth payload) := by
  have hnil : Few [] := ⟨Nat.zero_le _, by simp⟩
  have hlen : (strippedPayload payload).length ≤ maxEventBytes :=
    (length_strip _).trans (length_boundedEventPayload payload)
  unfold payloadEvents
  split
  · exact hnil
  split
  · exact few_lineEvents _ _
  · next one hl =>
    have hweight : Json.weightFields one + 1 ≤ _ := Json.loads_weight hl
    refine ⟨by simp [maxEventLines], fun e he => ?_⟩
    rw [List.mem_singleton.mp he]
    omega
  · next xs hl =>
    have hweight : Json.weightEach xs + 1 ≤ _ := Json.loads_weight hl
    cases hx : allObjects xs with
    | none => exact hnil
    | some es =>
      refine ⟨List.length_take_le _ _, fun e he => ?_⟩
      have := weight_allObjects hx e (List.mem_of_mem_take he)
      omega
  · exact hnil

theorem toolUses_le (e : Event) : toolUses e ≤ Json.weightFields e := by
  have hget : ∀ {fields : Event} {key : Text} {v : Loaded}, getItem fields key = v → v ≠ .null →
      v.weight ≤ Json.weightFields fields := by
    intro fields key v hv hne
    unfold getItem at hv
    cases hg : get fields key with
    | none =>
      rw [hg] at hv
      exact absurd hv.symm hne
    | some w =>
      rw [hg] at hv
      exact hv ▸ Json.weight_get_le hg
  unfold toolUses
  split
  · split
    · next message hm =>
      have hmessage : Json.weightFields message + 1 ≤ _ := hget hm (by simp)
      split
      · next content hc =>
        have hcontent : Json.weightEach content + 1 ≤ _ := hget hc (by simp)
        have hlen := Json.length_le_weightEach content
        refine List.countP_le_length.trans ?_
        omega
      · exact Nat.zero_le _
    · exact Nat.zero_le _
  · exact Nat.zero_le _

theorem Few.lt_intLimit {events : List Event} (h : Few events) :
    events.length < Json.intLimit ∧ (events.map toolUses).sum < Json.intLimit := by
  have hlen := h.length
  have hsum := List.sum_le_card_nsmul (events.map toolUses) maxEventBytes (by
    intro n hn
    obtain ⟨e, he, rfl⟩ := List.mem_map.mp hn
    exact (toolUses_le e).trans (h.weight e he))
  rw [List.length_map, nsmul_eq_mul, Nat.cast_id] at hsum
  have hmul := Nat.mul_le_mul_right maxEventBytes hlen
  have hcap : maxEventLines * maxEventBytes < 10 ^ 20 := by decide
  have hlines : maxEventLines < 10 ^ 20 := by decide
  exact ⟨Json.lt_intLimit (lt_of_le_of_lt hlen hlines),
    Json.lt_intLimit (lt_of_le_of_lt (hsum.trans hmul) hcap)⟩

/-! ## What the parsers return -/

/-- What `parse_codex_jsonl` needs. -/
structure CodexSafe (depth : Nat) (payload : Text) (exitCode : Int) : Prop where
  shallow : ShallowLines depth payload
  events : ∀ e ∈ lineEvents depth payload, EventSafe e
  tokens : ∀ n ∈ totalTokens ((codexUsage (lineEvents depth payload)).getD []), n < Json.intLimit
  exitCode : exitCode.natAbs < Json.intLimit

theorem boundedOutput_ok {output : Text} (h : output.encode.length ≤ maxFinalOutputBytes) :
    boundedOutput output = .ok output := by
  rw [boundedOutput, decide_eq_false (Nat.not_lt.mpr h)]
  rfl

/-- The end of both parsers: the metadata are checked, then the message. -/
theorem returns_iff {m : Meta} {p : Prop} {output : Text} (h : Described m) (hw : Written m ↔ p)
    (hout : output.encode.length ≤ maxFinalOutputBytes) :
    (∃ r, (makeMeta m >>= fun metadata => boundedOutput output >>= fun output =>
      (pure ⟨output, metadata⟩ : Except Exc ParsedVendorTelemetry)) = .ok r ∧
      r.output = output ∧ validateMeta r.metadata = .ok ()) ↔ p := by
  rw [← hw]
  by_cases hm : Written m
  · obtain ⟨hmake, hvalid⟩ := makeMeta_ok h hm
    refine ⟨fun _ => hm, fun _ => ⟨⟨output, m⟩, ?_, rfl, hvalid⟩⟩
    rw [hmake]
    show (boundedOutput output >>= _) = _
    rw [boundedOutput_ok hout]
    rfl
  · obtain ⟨x, hx⟩ := makeMeta_error h hm
    rw [hx]
    exact ⟨fun ⟨r, hr, _⟩ => (by cases hr), fun hm' => absurd hm' hm⟩

section Codex

variable {depth : Nat} {payload lastMessage cliVersion schema : Text} {exitCode : Int}
  {streamTruncated : Bool}

/-- The metadata of the events, which `parse_codex_jsonl` makes. -/
theorem described_codex {st : CodexState} {events : List Event}
    (hschema : eventSchema "codex".toList (some cliVersion) false = some schema)
    (hcode : ∀ c ∈ st.safeErrorCode, c ∈ safeErrorCodes) (done incomplete : Prop)
    [Decidable done] [Decidable incomplete] :
    Described (metaOf "codex".toList cliVersion schema
      (if done then "done".toList else "failed".toList)
      (if streamTruncated then some "output_limit".toList
        else if exitCode ≠ 0 ∧ st.safeErrorCode = none then some "process_exit".toList
        else st.safeErrorCode) exitCode streamTruncated (st.usage.getD []) st.toolCalls
      events.length (if incomplete then "partial".toList else "ok".toList)) := by
  refine described_metaOf (by decide +kernel) hschema ?_ (fun c hc => ?_) ?_
  · split
    · exact List.mem_cons_self
    · exact List.mem_cons_of_mem _ List.mem_cons_self
  · split at hc
    · obtain rfl := Option.mem_some_iff.mp hc
      decide +kernel
    split at hc
    · obtain rfl := Option.mem_some_iff.mp hc
      decide +kernel
    · exact hcode c hc
  · split
    · exact List.mem_cons_of_mem _ List.mem_cons_self
    · exact List.mem_cons_self

/-- **Codex.** The message is returned exactly when the output is safe. -/
theorem parseCodexJsonl_iff
    (hschema : eventSchema "codex".toList (some cliVersion) false ≠ none)
    (hlast : lastMessage.encode.length ≤ maxFinalOutputBytes) :
    (∃ r, parseCodexJsonl depth payload lastMessage cliVersion exitCode streamTruncated = .ok r ∧
      r.output = lastMessage ∧ validateMeta r.metadata = .ok ()) ↔
      CodexSafe depth payload exitCode := by
  obtain ⟨schema, hschema⟩ := Option.ne_none_iff_exists'.mp hschema
  have hfew := (few_lineEvents depth payload).lt_intLimit
  unfold parseCodexJsonl
  rw [hschema]
  dsimp only
  by_cases hshallow : ShallowLines depth payload
  · obtain ⟨p, hp⟩ := jsonLines_ok hshallow
    rw [hp]
    simp only [bind, Except.bind]
    by_cases hevents : ∀ e ∈ lineEvents depth payload, EventSafe e
    · obtain ⟨st, hst, hruns⟩ := foldlM_codexEvent_ok hevents codexStart
      rw [hst]
      dsimp only
      have husage : st.usage = codexUsage (lineEvents depth payload) := hruns.usage
      have hshort : Short (st.usage.getD []) := husage ▸ short_codexUsage _
      have htools : st.toolCalls < Json.intLimit := by
        have := hruns.toolCalls
        have hstart : codexStart.toolCalls = 0 := rfl
        omega
      have hcode : ∀ c ∈ st.safeErrorCode, c ∈ safeErrorCodes := fun c hc =>
        (hruns.code c hc).elim (fun hc => by cases hc) id
      have hd := @described_codex cliVersion schema exitCode streamTruncated st
        (lineEvents depth payload) hschema hcode
      refine (returns_iff (hd _ _) (written_metaOf hshort htools hfew.1) hlast).trans ?_
      rw [husage]
      exact ⟨fun h => ⟨hshallow, hevents, h.2, h.1⟩, fun h => ⟨h.exitCode, h.tokens⟩⟩
    · obtain ⟨x, hx⟩ := foldlM_codexEvent_error hevents codexStart
      rw [hx]
      refine ⟨fun ⟨r, hr, _⟩ => ?_, fun h => absurd h.events hevents⟩
      cases hr
  · obtain ⟨x, hx⟩ := jsonLines_error hshallow
    rw [hx]
    refine ⟨fun ⟨r, hr, _⟩ => ?_, fun h => absurd h.shallow hshallow⟩
    cases hr

end Codex

/-- The last result says that the execution failed, or the exit code does. -/
def claudeFailed (result : Option Event) (exitCode : Int) : Bool :=
  resultIsError result exitCode || decide (exitCode ≠ 0)

/-- The status of the API in the last result. -/
def errorStatus (result : Option Event) : Loaded :=
  result.elim .null fun e => getItem e "api_error_status".toList

/-- The counts of tokens in the last result. -/
def claudeUsage (result : Option Event) : Usage :=
  (result.bind fun e => numericUsage (getItem e "usage".toList)).getD []

/-- What `parse_claude_json` needs. -/
structure ClaudeSafe (depth : Nat) (payload : Text) (exitCode : Int) (streamTruncated : Bool) :
    Prop where
  shallow : ShallowPayload depth payload
  status : streamTruncated = false →
    claudeFailed (lastResult (payloadEvents depth payload)) exitCode = true →
    Hashable (errorStatus (lastResult (payloadEvents depth payload)))
  tokens : ∀ n ∈ totalTokens (claudeUsage (lastResult (payloadEvents depth payload))),
    n < Json.intLimit
  exitCode : exitCode.natAbs < Json.intLimit

theorem short_claudeUsage (result : Option Event) : Short (claudeUsage result) := by
  unfold claudeUsage
  cases hu : result.bind fun e => numericUsage (getItem e "usage".toList) with
  | none => exact fun f hf => by cases hf
  | some usage =>
    obtain ⟨e, -, he⟩ := Option.bind_eq_some_iff.mp hu
    exact short_numericUsage he

section Claude

variable {depth : Nat} {payload cliVersion schema : Text} {exitCode : Int}
  {streamTruncated attestation : Bool}

theorem resultErrorCode_ok {failed : Bool} {status : Loaded}
    (h : streamTruncated = false → failed = true → Hashable status) :
    ∃ code, resultErrorCode streamTruncated failed status = .ok code ∧
      ∀ c ∈ code, c ∈ safeErrorCodes := by
  unfold resultErrorCode
  by_cases ht : streamTruncated = true
  · rw [if_pos ht]
    refine ⟨_, rfl, fun c hc => ?_⟩
    obtain rfl := Option.mem_some_iff.mp hc
    decide +kernel
  rw [if_neg ht]
  by_cases hf : failed = true
  · obtain ⟨code, hmem, hcode⟩ := safeErrorFromStatus_ok (h (Bool.not_eq_true _ ▸ ht) hf)
    rw [if_pos hf, hcode]
    refine ⟨_, rfl, fun c hc => ?_⟩
    obtain rfl := Option.mem_some_iff.mp hc
    exact hmem
  · rw [if_neg hf]
    exact ⟨_, rfl, by simp⟩

theorem resultErrorCode_error {failed : Bool} {status : Loaded}
    (h : ¬(streamTruncated = false → failed = true → Hashable status)) :
    ∃ x, resultErrorCode streamTruncated failed status = .error x := by
  push Not at h
  obtain ⟨ht, hf, hhash⟩ := h
  obtain ⟨x, hx⟩ := checkHash_error hhash
  refine ⟨x, ?_⟩
  rw [resultErrorCode, ht, hf, safeErrorFromStatus, hx]
  rfl

/-- The metadata of the last result, which `parse_claude_json` makes. -/
theorem described_claude {code : Option Text} {usage : Usage} {tools events : Nat}
    (hschema : eventSchema "claude".toList (some cliVersion) attestation = some schema)
    (hcode : ∀ c ∈ code, c ∈ safeErrorCodes) (failed incomplete : Prop)
    [Decidable failed] [Decidable incomplete] :
    Described (metaOf "claude".toList cliVersion schema
      (if failed then "failed".toList else "done".toList) code exitCode streamTruncated
      usage tools events (if incomplete then "partial".toList else "ok".toList)) := by
  refine described_metaOf (by decide +kernel) hschema ?_ hcode ?_
  · split
    · exact List.mem_cons_of_mem _ List.mem_cons_self
    · exact List.mem_cons_self
  · split
    · exact List.mem_cons_of_mem _ List.mem_cons_self
    · exact List.mem_cons_self

/-- **Claude.** The last result is returned exactly when the output is safe. -/
theorem parseClaudeJson_iff
    (hschema : eventSchema "claude".toList (some cliVersion) attestation ≠ none)
    (hlast : (resultOutput (lastResult (payloadEvents depth payload))).1.encode.length ≤
      maxFinalOutputBytes) :
    (∃ r, parseClaudeJson depth payload cliVersion exitCode streamTruncated attestation = .ok r ∧
      r.output = (resultOutput (lastResult (payloadEvents depth payload))).1 ∧
      validateMeta r.metadata = .ok ()) ↔
      ClaudeSafe depth payload exitCode streamTruncated := by
  obtain ⟨schema, hschema⟩ := Option.ne_none_iff_exists'.mp hschema
  have hfew := (few_payloadEvents depth payload).lt_intLimit
  unfold parseClaudeJson
  rw [hschema]
  dsimp only
  by_cases hshallow : ShallowPayload depth payload
  · obtain ⟨p, hp⟩ := jsonPayload_ok hshallow
    rw [hp]
    simp only [bind, Except.bind]
    have hstatus :
        (streamTruncated = false → claudeFailed (lastResult (payloadEvents depth payload))
          exitCode = true → Hashable (errorStatus (lastResult (payloadEvents depth payload)))) ↔
        (streamTruncated = false → (claudeFailed (lastResult (payloadEvents depth payload))
          exitCode || streamTruncated) = true →
          Hashable (errorStatus (lastResult (payloadEvents depth payload)))) := by
      refine forall_congr' fun ht => ?_
      rw [ht, Bool.or_false]
    by_cases hsafe : streamTruncated = false →
      claudeFailed (lastResult (payloadEvents depth payload))
        exitCode = true → Hashable (errorStatus (lastResult (payloadEvents depth payload)))
    · obtain ⟨code, hcode, hmem⟩ := resultErrorCode_ok (hstatus.mp hsafe)
      unfold claudeFailed errorStatus at hcode
      rw [hcode]
      dsimp only
      have hd := @described_claude cliVersion schema exitCode streamTruncated attestation code
        (claudeUsage (lastResult (payloadEvents depth payload)))
        ((payloadEvents depth payload).map toolUses).sum (payloadEvents depth payload).length
        hschema hmem
      have hshort := short_claudeUsage (lastResult (payloadEvents depth payload))
      unfold claudeUsage at hd hshort
      have hsplit : (exitCode.natAbs < Json.intLimit ∧ ∀ n ∈ totalTokens
          (claudeUsage (lastResult (payloadEvents depth payload))), n < Json.intLimit) ↔
          ClaudeSafe depth payload exitCode streamTruncated :=
        ⟨fun h => ⟨hshallow, hsafe, h.2, h.1⟩, fun h => ⟨h.exitCode, h.tokens⟩⟩
      rw [← hsplit]
      clear hcode
      generalize (resultOutput (lastResult (payloadEvents depth payload))).1 = output at hlast ⊢
      exact returns_iff (hd _ _) (written_metaOf hshort hfew.2 hfew.1) hlast
    · obtain ⟨x, hx⟩ := resultErrorCode_error (mt hstatus.mpr hsafe)
      unfold claudeFailed errorStatus at hx
      rw [hx]
      exact ⟨fun ⟨r, hr, _⟩ => (by cases hr), fun h => absurd h.status hsafe⟩
  · obtain ⟨x, hx⟩ := jsonPayload_error hshallow
    rw [hx]
    refine ⟨fun ⟨r, hr, _⟩ => ?_, fun h => absurd h.shallow hshallow⟩
    cases hr

end Claude

instance (e : Event) : Decidable (EventSafe e) :=
  decidable_of_iff (Hashable (getItem e "type".toList) ∧
      (isText "item.completed".toList (getItem e "type".toList) = true →
        Hashable (match getItem e "item".toList with
          | .obj nested => getItem nested "type".toList
          | _ => .null))) <| by
    constructor
    · rintro ⟨htyp, hitem⟩
      refine ⟨htyp, fun hi nested hn => ?_⟩
      have := hitem hi
      rwa [hn] at this
    · intro h
      refine ⟨h.typ, fun hi => ?_⟩
      split
      · next nested hn => exact h.item hi nested hn
      · trivial

/-- **Both parsers** return the message, with metadata that are valid, exactly when no text they
decode is too deep, the values they look up in a set can be hashed, and the exit code and the tokens
have no more digits than are written. -/
theorem parse_returns_iff (depth : Nat) (payload lastMessage codexVersion claudeVersion : Text)
    (exitCode : Int) (streamTruncated attestation : Bool) :
    (eventSchema "codex".toList (some codexVersion) false ≠ none →
      lastMessage.encode.length ≤ maxFinalOutputBytes →
      ((∃ r,
        parseCodexJsonl depth payload lastMessage codexVersion exitCode streamTruncated = .ok r ∧
        r.output = lastMessage ∧ validateMeta r.metadata = .ok ()) ↔
        CodexSafe depth payload exitCode)) ∧
    (eventSchema "claude".toList (some claudeVersion) attestation ≠ none →
      (resultOutput (lastResult (payloadEvents depth payload))).1.encode.length ≤
        maxFinalOutputBytes →
      ((∃ r, parseClaudeJson depth payload claudeVersion exitCode streamTruncated attestation =
          .ok r ∧
        r.output = (resultOutput (lastResult (payloadEvents depth payload))).1 ∧
        validateMeta r.metadata = .ok ()) ↔
        ClaudeSafe depth payload exitCode streamTruncated)) :=
  ⟨parseCodexJsonl_iff, parseClaudeJson_iff⟩

theorem parse_returns_turn : ∃ r, parseCodexJsonl 100
    "\x7b\"type\":\"turn.completed\",\"usage\":\x7b\"input_tokens\":3\x7d\x7d".toList "ok".toList
    "codex-cli 0.144.5".toList 0 false = .ok r ∧ r.output = "ok".toList ∧
    validateMeta r.metadata = .ok () := by
  refine ((parse_returns_iff 100 _ "ok".toList "codex-cli 0.144.5".toList [] 0 false false).1
    (by decide +kernel) (by decide +kernel)).mpr ⟨?_, ?_, ?_, ?_⟩
  · unfold ShallowLines
    decide +kernel
  · decide +kernel
  · have hnone : totalTokens ((codexUsage (lineEvents 100
        "\x7b\"type\":\"turn.completed\",\"usage\":\x7b\"input_tokens\":3\x7d\x7d".toList)).getD []) =
        none := by decide +kernel
    rw [hnone]
    simp
  · exact Json.lt_intLimit (by decide)

/-- An event whose type is a list is looked up in a set, and so is the status of a result. -/
theorem parse_unhashable :
    eventSchema "codex".toList (some "codex-cli 0.144.5".toList) false ≠ none ∧
    (parseCodexJsonl 100 "\x7b\"type\":[]\x7d".toList "ok".toList "codex-cli 0.144.5".toList 0
      false).isOk = false ∧
    eventSchema "claude".toList (some "2.1.198 (Claude Code)".toList) true ≠ none ∧
    (parseClaudeJson 100
      "\x7b\"type\":\"result\",\"is_error\":true,\"api_error_status\":[],\"result\":\"ok\"\x7d".toList
      "2.1.198 (Claude Code)".toList 0 false true).isOk = false := by
  refine ⟨?_, ?_, ?_, ?_⟩
  · decide +kernel
  · decide +kernel
  · decide +kernel
  · decide +kernel

end VendorTelemetry
