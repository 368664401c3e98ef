import Liboffs.ClientApi.GetDelivery

/-!
# The gets of a connection

The frames on a connection are those of its pipelines, one after the other, as
long as a client asks again only when it has seen the end of the last answer.
-/

namespace Liboffs.ClientApi

open BlockCache Library Library.ByteOrder Library.Runs OffStreams List Option GetPipeline

variable {label : PipelineStep}

/-- The reader's events are handled only where one was waiting. -/
theorem readerHandled_step {store : Hash → Option Bytes} {cached : List (Tuple × Bytes)}
    {get next : GetPipeline} (stepped : pipelineStep store cached get label = some next) :
    ∃ new, next.readerHandled = get.readerHandled ++ new ∧ (get.readerEvents = [] → new = []) := by
  have quiet : next.readerHandled = get.readerHandled →
      ∃ new, next.readerHandled = get.readerHandled ++ new ∧
        (get.readerEvents = [] → new = []) := fun same =>
    ⟨[], by rw [same, append_nil], fun _ => rfl⟩
  have received : ∀ (other : GetPipeline) (message : DescriptorReaderMessage),
      (other.descriptorReceive message).readerHandled = other.readerHandled := by
    intro other message
    unfold descriptorReceive
    split <;> rfl
  cases label with
  | push | descriptorReply | descriptorFind =>
    rw [pipelineStep] at stepped
    split at stepped
    · cases stepped
    · cases stepped
      exact quiet (received _ _)
  | descriptorEvent =>
    rw [pipelineStep] at stepped
    split at stepped
    · cases stepped
    · next event rest _ =>
        cases stepped
        apply quiet
        cases event with
        | data keys =>
          simp only [onDescriptorEvent, guarded]
          split
          · unfold onTuple
            split <;> rfl
          · rfl
        | close | error =>
          simp only [onDescriptorEvent, guarded]
          split <;> rfl
        | readable | finished | complete | loadTuple => rfl
  | read label =>
    rcases map_eq_some_iff.mp stepped with ⟨reading, _, rfl⟩
    exact quiet rfl
  | readerFind position found block =>
    rw [pipelineStep] at stepped
    split at stepped
    · cases stepped
    · split at stepped
      · cases stepped
        exact quiet rfl
      · cases stepped
        exact quiet rfl
  | readerEvent =>
    rw [pipelineStep] at stepped
    split at stepped
    · cases stepped
    · next event rest events =>
        cases stepped
        refine ⟨[event], ?_, fun none => ?_⟩
        · cases event with
          | data | close | error =>
            simp only [onReaderEvent, guarded]
            split <;> rfl
          | readable | finished | complete | loadTuple => rfl
        · rw [none] at events
          cases events

section
variable {store : Hash → Option Bytes} {cached : List (Tuple × Bytes)}
  {tuples : List Tuple} {file : Bytes} {rounds left : Nat}
  {get next : GetPipeline} {label : PipelineStep}

/-- The frames that a step adds; there are none behind the end. -/
theorem Serving.sent_step (serving : Serving store tuples file rounds get)
    (after : Serving store tuples file left next)
    (stepped : pipelineStep store cached get label = some next) :
    ∃ new, next.sent = get.sent ++ new ∧ (.close ∈ get.readerHandled → new = []) := by
  obtain ⟨events, handled, none⟩ := readerHandled_step stepped
  refine ⟨events.filterMap replyTo, ?_, fun closed => ?_⟩
  · rw [after.replies, serving.replies, handled, filterMap_append]
    rfl
  · cases waiting : get.readerEvents with
    | nil =>
      rw [none waiting]
      rfl
    | cons event rest => exact absurd closed (serving.reader_open waiting).1

end

/-- The frames of pipelines, one after the other. -/
def wire (pipelines : List (Nat × GetPipeline)) : List (Nat × GetFrame) :=
  pipelines.flatMap fun entry => entry.2.sent.map (Prod.mk entry.1)

/-- Every pipeline has the number of its place. -/
def Numbered (pipelines : List (Nat × GetPipeline)) : Prop :=
  pipelines.map Prod.fst = List.range pipelines.length

theorem wire_append (front back : List (Nat × GetPipeline)) :
    wire (front ++ back) = wire front ++ wire back :=
  flatMap_append

theorem framesOf_append :
    framesOf (front ++ back) number = framesOf front number ++ framesOf back number := by
  rw [framesOf, filter_append, map_append]
  rfl

variable {number index : Nat} {pipelines : List (Nat × GetPipeline)} {entry : Nat × GetPipeline}

theorem framesOf_wire_ne (others : ∀ entry ∈ pipelines, entry.1 ≠ number) :
    framesOf (wire pipelines) number = [] := by
  rw [framesOf, map_eq_nil_iff, filter_eq_nil_iff]
  intro frame among
  rcases mem_flatMap.mp among with ⟨entry, listed, sent⟩
  rcases mem_map.mp sent with ⟨_, _, rfl⟩
  simpa using others entry listed

theorem framesOf_single (number : Nat) (get : GetPipeline) :
    framesOf (wire [(number, get)]) number = get.sent := by
  simp [framesOf, wire, List.filter_map, Function.comp_def]

section
variable (numbered : Numbered pipelines)
include numbered

theorem Numbered.nodup : (pipelines.map Prod.fst).Nodup := by
  rw [numbered]
  exact nodup_range

theorem Numbered.framesOf_eq {get : GetPipeline} (among : (number, get) ∈ pipelines) :
    framesOf (wire pipelines) number = get.sent := by
  rcases append_of_mem among with ⟨front, back, rfl⟩
  have distinct := numbered.nodup
  rw [map_append, map_cons, nodup_append] at distinct
  have before : ∀ entry ∈ front, entry.1 ≠ number := by
    intro entry listed same
    exact distinct.2.2 entry.1 (mem_map_of_mem listed) number mem_cons_self same
  have behind : ∀ entry ∈ back, entry.1 ≠ number := by
    intro entry listed same
    have mapped : entry.1 ∈ back.map Prod.fst := mem_map_of_mem listed
    rw [same] at mapped
    exact (nodup_cons.mp distinct.2.1).1 mapped
  have single : (number, get) :: back = [(number, get)] ++ back := rfl
  rw [wire_append, framesOf_append, framesOf_wire_ne before, single,
    wire_append, framesOf_append, framesOf_single, framesOf_wire_ne behind]
  simp

theorem Numbered.framesOf_getElem (here : pipelines[index]? = some entry) :
    framesOf (wire pipelines) index = entry.2.sent := by
  have mapped := congrArg (·[index]?) numbered
  have within := (List.getElem?_eq_some_iff.mp here).1
  simp only [getElem?_map, here, map_some] at mapped
  rw [getElem?_range within] at mapped
  cases Option.some.inj mapped
  exact numbered.framesOf_eq (mem_of_getElem? here)

/-- The frames of the pipelines follow each other. -/
theorem Numbered.apart : (wire pipelines).Pairwise fun earlier later => earlier.1 ≤ later.1 := by
  have increasing : pipelines.Pairwise fun earlier later =>
      earlier.1 < later.1 := by
    have sorted := pairwise_lt_range (n := pipelines.length)
    rw [← numbered, pairwise_map] at sorted
    exact sorted
  rw [wire, pairwise_flatMap]
  constructor
  · intro entry _
    rw [pairwise_map]
    exact pairwise_of_forall fun _ _ => le_refl _
  · apply increasing.imp
    intro earlier later less frame among other among'
    rcases mem_map.mp among with ⟨_, _, rfl⟩
    rcases mem_map.mp among' with ⟨_, _, rfl⟩
    exact le_of_lt less

end

theorem set_of_getElem? {Item : Type} {items : List Item} {item : Item}
    (here : items[index]? = some item) : items.set index item = items := by
  rcases List.getElem?_eq_some_iff.mp here with ⟨bound, rfl⟩
  exact set_getElem_self bound

theorem sum_set_lt {numbers : List Nat} {smaller : Nat} (here : numbers[index]? = some number)
    (less : smaller < number) : (numbers.set index smaller).sum < numbers.sum := by
  induction numbers generalizing index with
  | nil => cases here
  | cons first rest ih =>
    cases index with
    | zero =>
      cases here
      rw [set_cons_zero, sum_cons, sum_cons]
      omega
    | succ index =>
      rw [set_cons_succ, sum_cons, sum_cons]
      have later := ih here
      omega

section
variable (offUrlParse : String → Option OffUrl) (hashData : Bytes → Hash)
  (store : Hash → Option Bytes) (cached : List (Tuple × Bytes)) (fileOf : OffUrl → Bytes)

/-- A request for a file that is there, in blocks and tuples of this form. -/
def AsksForFile (request : GetRequest) (type : BlockSize) (tupleSize : Nat) : Prop :=
  request.range = none ∧ ∃ url tuples, offUrlParse request.oriString = some url ∧
      isDirectory url = false ∧ StoredAs hashData store type tupleSize tuples url (fileOf url)

/-- A client asks one after the other for whole standard files whose blocks the node has. -/
def Orderly (conn : GetConnection) : GetStep → Prop
  | .request frame =>
    conn.isAuthenticated = true ∧ (∀ number < conn.requests.length,
        ∃ frame ∈ framesOf conn.frames number, frame.isTerminal = true) ∧
      ∃ request, frame = some request ∧
        AsksForFile offUrlParse hashData store fileOf request .standard 3
  | .resolved _ _ => True
  | .pipeline _ _ => True

/-- A pipeline that serves a request within a budget. -/
def ServesWithin (request : Option GetRequest) (get : GetPipeline) (budget : Nat) : Prop :=
  ∃ asked url tuples rounds,
    request = some asked ∧ asked.range = none ∧ offUrlParse asked.oriString = some url ∧
      Servable store cached tuples (fileOf url) ∧ Serving store tuples (fileOf url) rounds get ∧
      servingCost tuples rounds get ≤ budget

/-- What holds of a connection on which a client asks in this way. -/
structure ServesAll (hasTupleCache hasNetwork : Bool) (budgets : List Nat)
    (conn : GetConnection) : Prop where
  tupleCache : conn.hasTupleCache = hasTupleCache
  network : conn.hasNetwork = hasNetwork
  resolving : conn.resolving = []
  requested : conn.requests.length = conn.pipelines.length
  budgeted : budgets.length = conn.pipelines.length
  numbered : Numbered conn.pipelines
  served : ∀ (index : Nat) (entry : Nat × GetPipeline)
      (request : Option GetRequest) (budget : Nat), conn.pipelines[index]? = some entry →
    conn.requests[index]? = some request → budgets[index]? = some budget →
    ServesWithin offUrlParse store cached fileOf request entry.2 budget
  ended : ∀ (index : Nat) (entry : Nat × GetPipeline),
    conn.pipelines[index]? = some entry →
    index + 1 < conn.pipelines.length → .close ∈ entry.2.readerHandled
  frames : conn.frames = wire conn.pipelines

end

section
variable {offUrlParse : String → Option OffUrl} {hashData : Bytes → Hash}
  {store : Hash → Option Bytes} {cached : List (Tuple × Bytes)}
  {fileOf : OffUrl → Bytes} {hasTupleCache hasNetwork : Bool}
  {budgets : List Nat} {conn : GetConnection}

namespace ServesAll

section
variable (serves : ServesAll offUrlParse store cached fileOf hasTupleCache hasNetwork budgets conn)
include serves

theorem within (here : conn.pipelines[index]? = some entry) :
    ∃ request budget, conn.requests[index]? = some request ∧ budgets[index]? = some budget ∧
      ServesWithin offUrlParse store cached fileOf request entry.2 budget := by
  have bound := (List.getElem?_eq_some_iff.mp here).1
  have requested := serves.requested
  have budgeted := serves.budgeted
  have first := getElem?_eq_getElem (show index < conn.requests.length by omega)
  have second := getElem?_eq_getElem (show index < budgets.length by omega)
  exact ⟨_, _, first, second, serves.served index entry _ _ here first second⟩

/-- The wire when a pipeline has sent more. -/
theorem frames_update {get next : GetPipeline} {new : List GetFrame}
    (here : conn.pipelines[index]? = some (number, get)) (sent : next.sent = get.sent ++ new)
    (silent : .close ∈ get.readerHandled → new = []) :
    conn.frames ++ new.map (Prod.mk number) = wire (conn.pipelines.set index (number, next)) := by
  have bound := (List.getElem?_eq_some_iff.mp here).1
  have value := (List.getElem?_eq_some_iff.mp here).2
  have split : conn.pipelines = conn.pipelines.take index ++
      (number, get) :: conn.pipelines.drop (index + 1) := by
    rw [← value, ← drop_eq_getElem_cons bound, take_append_drop]
  have whole : wire conn.pipelines = wire (conn.pipelines.take index) ++
      (get.sent.map (Prod.mk number) ++ wire (conn.pipelines.drop (index + 1))) := by
    conv_lhs => rw [split, wire_append]
    rfl
  have changed : wire (conn.pipelines.set index (number, next)) =
      wire (conn.pipelines.take index) ++ ((get.sent ++ new).map (Prod.mk number) ++
          wire (conn.pipelines.drop (index + 1))) := by
    rw [set_eq_take_append_cons_drop, if_pos bound, wire_append, ← sent]
    rfl
  rw [serves.frames, whole, changed]
  by_cases last : index + 1 < conn.pipelines.length
  · rw [silent (serves.ended index _ here last)]
    simp
  · have nothing : conn.pipelines.drop (index + 1) = [] :=
      drop_of_length_le (not_lt.mp last)
    rw [nothing, map_append]
    simp [wire]

theorem pipeline {next : GetConnection}
    (stepped : getStep offUrlParse store cached conn (.pipeline index label) = some next) :
    ∃ left, ServesAll offUrlParse store cached fileOf hasTupleCache
        hasNetwork left next ∧ left.sum < budgets.sum := by
  cases here : conn.pipelines[index]? with
  | none =>
    rw [getStep, here] at stepped
    cases stepped
  | some entry =>
    rcases entry with ⟨number, get⟩
    obtain ⟨request, budget, requested, budgeted, asked, url, tuples,
      rounds, same, whole, parsed, servable, serving, cost⟩ :=
      serves.within here
    rw [getStep, here] at stepped
    dsimp only at stepped
    have intact : get.corrupted = false := serving.intact
    rw [if_neg (by simp [intact])] at stepped
    rcases map_eq_some_iff.mp stepped with ⟨after, moved, rfl⟩
    obtain ⟨left, later, less⟩ := serving.step servable label moved
    obtain ⟨new, sent, silent⟩ := serving.sent_step later moved
    have bound := (List.getElem?_eq_some_iff.mp here).1
    have bound' : index < budgets.length := by
      rw [serves.budgeted]
      exact bound
    obtain ⟨events, handled, _⟩ := readerHandled_step moved
    refine ⟨budgets.set index (servingCost tuples left after),
      ⟨serves.tupleCache, serves.network, serves.resolving, ?_, ?_, ?_, ?_, ?_, ?_⟩, ?_⟩
    · change conn.requests.length = (conn.pipelines.set _ _).length
      rw [length_set]
      exact serves.requested
    · change (budgets.set _ _).length = (conn.pipelines.set _ _).length
      rw [length_set, length_set]
      exact serves.budgeted
    · change (conn.pipelines.set _ _).map Prod.fst = List.range (conn.pipelines.set _ _).length
      rw [length_set, map_set, ← serves.numbered]
      apply set_of_getElem?
      rw [getElem?_map, here]
      rfl
    · intro position entry request' budget' here' requested' budgeted'
      by_cases place : index = position
      · subst place
        change (conn.pipelines.set _ _)[index]? = _ at here'
        rw [getElem?_set_self bound] at here'
        rw [getElem?_set_self bound'] at budgeted'
        cases here'
        cases budgeted'
        cases requested.symm.trans requested'
        exact ⟨asked, url, tuples, left, same, whole, parsed, servable, later, le_refl _⟩
      · change (conn.pipelines.set _ _)[position]? = _ at here'
        rw [getElem?_set_ne place] at here' budgeted'
        exact serves.served position entry request' budget' here' requested' budgeted'
    · intro position entry here' more
      change (conn.pipelines.set _ _)[position]? = _ at here'
      change _ < (conn.pipelines.set _ _).length at more
      rw [length_set] at more
      by_cases place : index = position
      · subst place
        rw [getElem?_set_self bound] at here'
        cases here'
        rw [handled]
        exact mem_append_left _ (serves.ended index _ here more)
      · rw [getElem?_set_ne place] at here'
        exact serves.ended position entry here' more
    · change conn.frames ++ (after.sent.drop get.sent.length).map _ = _
      rw [sent, drop_left]
      exact serves.frames_update here sent silent
    · apply sum_set_lt budgeted
      omega

/-- A new pipeline is put behind the others. -/
theorem request (authenticated : conn.isAuthenticated = true)
    (answered : ∀ number < conn.requests.length,
      ∃ frame ∈ framesOf conn.frames number, frame.isTerminal = true)
    (parsed : offUrlParse asked.oriString = some url) (file : isDirectory url = false)
    (starts : ServesWithin offUrlParse store cached fileOf (some asked)
      (startPipeline conn (getOri url) 2) budget) :
    ServesAll offUrlParse store cached fileOf hasTupleCache hasNetwork
      (budgets ++ [budget]) (conn.handleGet offUrlParse (some asked)) := by
  have handled : conn.handleGet offUrlParse (some asked) =
      { conn with
        requests := conn.requests ++ [some asked]
        pipelines := conn.pipelines ++ [(conn.requests.length, startPipeline conn (getOri url) 2)]
        frames := conn.frames ++ [(conn.requests.length, startFrame (getOri url).finalByte)] } := by
    simp [GetConnection.handleGet, authenticated, parsed, file,
      GetConnection.serve, GetConnection.send, startPipeline]
  rw [handled]
  have requested := serves.requested
  have budgeted := serves.budgeted
  refine ⟨serves.tupleCache, serves.network, serves.resolving, ?_, ?_, ?_, ?_, ?_, ?_⟩
  · simp [requested]
  · simp [budgeted]
  · change (conn.pipelines ++ [_]).map Prod.fst = List.range (conn.pipelines ++ [_]).length
    rw [map_append, serves.numbered, length_append, length_singleton, range_succ, requested]
    rfl
  · intro index entry request' budget' here requested' budgeted'
    by_cases early : index < conn.pipelines.length
    · rw [getElem?_append_left early] at here
      rw [getElem?_append_left (by omega)] at requested'
      rw [getElem?_append_left (by omega)] at budgeted'
      exact serves.served index entry request' budget' here requested' budgeted'
    · have last : index = conn.pipelines.length := by
        have bound := (List.getElem?_eq_some_iff.mp here).1
        rw [length_append, length_singleton] at bound
        omega
      subst last
      rw [getElem?_concat_length] at here
      rw [← requested, getElem?_concat_length] at requested'
      rw [← budgeted, getElem?_concat_length] at budgeted'
      cases here
      cases requested'
      cases budgeted'
      exact starts
  · intro index entry here more
    rw [length_append, length_singleton] at more
    rw [getElem?_append_left (by omega)] at here
    obtain ⟨request, budget, _, _, asked, url, tuples, rounds, _, _, _, _,
      serving, _⟩ := serves.within here
    have bound := (List.getElem?_eq_some_iff.mp here).1
    rw [← serves.requested] at bound
    obtain ⟨frame, among, terminal⟩ := answered index bound
    rw [serves.frames, serves.numbered.framesOf_getElem here] at among
    rw [serving.replies] at among
    rcases mem_cons.mp among with rfl | reply
    · cases terminal
    · rcases mem_filterMap.mp reply with ⟨event, handled, replied⟩
      cases event with
      | close => exact handled
      | data bytes =>
        cases replied
        cases terminal
      | error | readable | finished | complete | loadTuple => cases replied
  · rw [wire_append, serves.frames]
    rfl

end

end ServesAll

end

/-- The part of a bound that a step brings with it. -/
def requestCost (cost : GetRequest → Nat) : GetStep → Nat
  | .request (some request) => cost request
  | _ => 0

section
variable {offUrlParse : String → Option OffUrl} {hashData : Bytes → Hash}
  {store : Hash → Option Bytes} {cached : List (Tuple × Bytes)} {fileOf : OffUrl → Bytes}

/-- A request has a bound on the steps that it takes. -/
theorem exists_cost (offUrlParse : String → Option OffUrl) (hashData : Bytes → Hash)
    (fileOf : OffUrl → Bytes) (consistent : ∀ pair ∈ cached, pair.2 = tupleContent store pair.1)
    (hasNetwork : Bool) :
    ∃ cost : GetRequest → Nat, ∀ request url,
      AsksForFile offUrlParse hashData store fileOf request .standard 3 →
      offUrlParse request.oriString = some url → ∃ budget < cost request,
        ∀ conn : GetConnection, conn.hasNetwork = hasNetwork →
          ServesWithin offUrlParse store cached fileOf (some request)
            (startPipeline conn (getOri url) 2) budget := by
  have each : ∀ request : GetRequest, ∃ bound : Nat, ∀ url,
      AsksForFile offUrlParse hashData store fileOf request .standard 3 →
      offUrlParse request.oriString = some url → ∃ budget < bound,
        ∀ conn : GetConnection, conn.hasNetwork = hasNetwork →
          ServesWithin offUrlParse store cached fileOf (some request)
            (startPipeline conn (getOri url) 2) budget := by
    intro request
    by_cases asks : AsksForFile offUrlParse hashData store fileOf request .standard 3
    · obtain ⟨whole, url, tuples, parsed, _, stored⟩ := asks
      obtain ⟨rounds, progress⟩ := stored.progress hasNetwork
      have servable := stored.servable (by omega) consistent
      let received := receivedTuples tuples
      let budget := rounds + 1 + (descriptorPlan received).length +
        5 * readMeasure (.start (readableOffStreamCreateEx
          (getOri url).toOri false hasNetwork false) received)
      refine ⟨budget + 1, fun other _ parsed' => ?_⟩
      cases parsed.symm.trans parsed'
      refine ⟨budget, Nat.lt_succ_self _, fun conn network => ?_⟩
      subst network
      exact ⟨request, url, received, rounds, rfl, whole, parsed, servable,
        stored.serving conn progress, le_refl _⟩
    · exact ⟨0, fun _ asks' => absurd asks' asks⟩
  choose cost bounded using each
  exact ⟨cost, bounded⟩

section
variable {hasTupleCache hasNetwork : Bool} {budgets : List Nat} {conn : GetConnection}

section
variable (serves : ServesAll offUrlParse store cached fileOf hasTupleCache hasNetwork budgets conn)
include serves

/-- A connection on which all pipelines serve delivers what was asked. -/
theorem ServesAll.delivers : Delivers offUrlParse fileOf conn where
  answered := by
    intro number request url asked parsed
    have bound := (List.getElem?_eq_some_iff.mp asked).1
    rw [serves.requested] at bound
    have here := getElem?_eq_getElem bound
    obtain ⟨request', budget, asked', _, other, url', tuples, rounds, same,
      whole, parsed', servable, serving, _⟩ := serves.within here
    cases asked.symm.trans asked'
    cases same
    cases parsed.symm.trans parsed'
    obtain ⟨pieces, ends, answers, _⟩ := serving.answers servable
    refine ⟨(fileOf url).length, pieces, ends, ?_⟩
    rw [whole, serves.frames, serves.numbered.framesOf_getElem here]
    exact answers
  apart := by
    rw [serves.frames]
    exact serves.numbered.apart
  freed := by
    intro number get among
    rcases getElem?_of_mem among with ⟨index, here⟩
    obtain ⟨_, _, _, _, _, _, _, _, _, _, _, _, serving, _⟩ := serves.within here
    exact serving.freedAtEnd

/-- When nothing is on its way, everything has been delivered. -/
theorem ServesAll.finished
    (rests : ConnectionRests offUrlParse store cached conn) : Finished conn := by
  have closed : ∀ (index : Nat) (entry : Nat × GetPipeline), conn.pipelines[index]? = some entry →
      (∃ frame ∈ entry.2.sent, frame.isTerminal = true) ∧ entry.2.freed = 1 := by
    intro index entry here
    obtain ⟨_, _, _, _, _, _, _, _, _, _, _, servable, serving, _⟩ := serves.within here
    obtain ⟨reader, descriptor⟩ := serving.ends servable (by
      intro label
      have still := rests.2 index label
      rw [getStep, here] at still
      dsimp only at still
      rw [if_neg (by simp [serving.intact])] at still
      exact map_eq_none_iff.mp still)
    obtain ⟨pieces, ends, answers, last⟩ := serving.answers servable
    constructor
    · refine ⟨.getEnd, ?_, rfl⟩
      rw [answers.shape, last reader]
      simp
    · rw [serving.freedAtEnd.freed, if_pos ⟨reader, descriptor⟩]
  constructor
  · intro number bound
    rw [serves.requested] at bound
    have here := getElem?_eq_getElem bound
    rw [serves.frames, serves.numbered.framesOf_getElem here]
    exact (closed number _ here).1
  · intro number get among
    rcases getElem?_of_mem among with ⟨index, here⟩
    exact (closed index _ here).2

/-- The pipelines can always go on until nothing is on its way. -/
theorem ServesAll.comes_to_rest :
    ∃ (moves : List (Nat × PipelineStep)) (rested : GetConnection),
      (moves.map fun move => GetStep.pipeline move.1 move.2).foldlM
        (getStep offUrlParse store cached) conn = some rested ∧
      ConnectionRests offUrlParse store cached rested := by
  induction total : budgets.sum using Nat.strong_induction_on generalizing budgets conn with
  | _ total ih =>
    by_cases rests : ConnectionRests offUrlParse store cached conn
    · exact ⟨[], conn, rfl, rests⟩
    · simp only [ConnectionRests, serves.resolving, true_and, not_forall] at rests
      obtain ⟨index, label, moves⟩ := rests
      obtain ⟨next, stepped⟩ := ne_none_iff_exists'.mp moves
      obtain ⟨left, later, less⟩ := serves.pipeline stepped
      obtain ⟨rest, rested, run, still⟩ := ih left.sum (by omega) later rfl
      refine ⟨(index, label) :: rest, rested, ?_, still⟩
      rw [map_cons, foldlM_cons, stepped]
      exact run

end

end

/-- One step of an orderly client keeps everything in order. -/
theorem ServesAll.step {cost : GetRequest → Nat} {hasTupleCache hasNetwork : Bool}
    (costs : ∀ request url, AsksForFile offUrlParse hashData store fileOf request .standard 3 →
      offUrlParse request.oriString = some url → ∃ budget < cost request,
        ∀ conn : GetConnection, conn.hasNetwork = hasNetwork →
          ServesWithin offUrlParse store cached fileOf (some request)
            (startPipeline conn (getOri url) 2) budget)
    {budgets : List Nat} {conn next : GetConnection} {label : GetStep}
    (serves : ServesAll offUrlParse store cached fileOf hasTupleCache hasNetwork budgets conn)
    (orderly : Orderly offUrlParse hashData store fileOf conn label)
    (stepped : getStep offUrlParse store cached conn label = some next) :
    ∃ left, ServesAll offUrlParse store cached fileOf hasTupleCache hasNetwork left next ∧
      left.sum < budgets.sum + requestCost cost label := by
  cases label with
  | request frame =>
    obtain ⟨authenticated, answered, request, rfl, asks⟩ := orderly
    obtain ⟨_, url, tuples, parsed, file, _⟩ := id asks
    obtain ⟨budget, less, starts⟩ := costs request url asks parsed
    cases stepped
    refine ⟨_, serves.request authenticated answered parsed file (starts conn serves.network), ?_⟩
    rw [sum_append, sum_singleton]
    exact Nat.add_lt_add_left less _
  | resolved position result =>
    rw [getStep, serves.resolving] at stepped
    cases stepped
  | pipeline index label => exact serves.pipeline stepped

end

/--
Whole files asked for one after the other over a socket are delivered: each answer is the
announcement, first bytes of the file and, behind all its bytes, the end; frames of different
answers do not overlap, contexts are freed once, and runs end.
-/
theorem socket_gets_deliver (offUrlParse : String → Option OffUrl) (hashData : Bytes → Hash)
    (store : Hash → Option Bytes) (cached : List (Tuple × Bytes)) (fileOf : OffUrl → Bytes)
    (consistent : ∀ pair ∈ cached, pair.2 = tupleContent store pair.1)
    (hasTupleCache hasNetwork isAuthenticated : Bool) :
    ∃ cost : GetRequest → Nat, ∀ (labels : List GetStep) (reached : GetConnection),
        EachStep (getStep offUrlParse store cached) (Orderly offUrlParse hashData store fileOf)
          (.fresh hasTupleCache hasNetwork isAuthenticated) labels →
        labels.foldlM (getStep offUrlParse store cached)
          (.fresh hasTupleCache hasNetwork isAuthenticated) = some reached →
        Delivers offUrlParse fileOf reached ∧
        (ConnectionRests offUrlParse store cached reached → Finished reached) ∧
        (∃ (moves : List (Nat × PipelineStep)) (rested : GetConnection),
          (moves.map fun move => GetStep.pipeline move.1 move.2).foldlM
            (getStep offUrlParse store cached) reached = some rested ∧
          ConnectionRests offUrlParse store cached rested) ∧
        labels.length ≤ (labels.map (requestCost cost)).sum := by
  obtain ⟨cost, costs⟩ := exists_cost offUrlParse hashData fileOf consistent hasNetwork
  refine ⟨cost, fun labels reached each runs => ?_⟩
  have initial : ServesAll offUrlParse store cached fileOf hasTupleCache hasNetwork []
      (.fresh hasTupleCache hasNetwork isAuthenticated) :=
    ⟨rfl, rfl, rfl, rfl, rfl, rfl, fun _ _ _ _ here => (by cases here),
      fun _ _ here => (by cases here), rfl⟩
  obtain ⟨left, ⟨budgets, serves, rfl⟩, bounded⟩ := each.spends (fun conn budget => ∃ budgets,
      ServesAll offUrlParse store cached fileOf hasTupleCache hasNetwork
        budgets conn ∧ budgets.sum = budget)
    (requestCost cost) (by
      rintro conn label next _ ⟨budgets, serves, rfl⟩ orderly stepped
      obtain ⟨left, later, less⟩ := serves.step costs orderly stepped
      exact ⟨left.sum, ⟨left, later, rfl⟩, less⟩)
    ⟨[], initial, rfl⟩ runs
  refine ⟨serves.delivers, serves.finished, serves.comes_to_rest, ?_⟩
  rw [sum_nil, zero_add] at bounded
  omega

/-- The URL of a file of one standard block. -/
def smallUrl : OffUrl where
  serverAddress := "http://localhost:23402"
  contentType := ""
  streamLength := 128000
  fileHash := none
  descriptorHash := some (filledHash 0)
  fileName := "file"

theorem isDirectory_smallUrl : isDirectory smallUrl = false := by
  apply decide_eq_false
  intro within
  have nothing := infix_nil.mp within
  exact absurd nothing (by decide)

def askedForSmallFile : GetConnection :=
  { GetConnection.fresh true false true with
    requests := [some ⟨"off", none⟩]
    pipelines := [(0, startPipeline (.fresh true false true) (getOri smallUrl) 2)]
    frames := [(0, startFrame 128000)] }

def zeroFile : Bytes :=
  List.replicate 128000 0

/-- A store with the file of zeros, which is the sum of three equal blocks. -/
def zeroFileStore (hash : Hash) : Option Bytes :=
  if hash = filledHash 1 then
    some zeroFile
  else
    oneBlockStore .standard (filledHash 0)
      (descriptorKeys [repeatedTuple 3 (filledHash 1)]) hash.bytes

theorem xorBytes_zeros (count : Nat) :
    XorBytes.xorBytes (List.replicate count 0) (List.replicate count 0) =
      List.replicate count 0 := by
  induction count with
  | zero => rfl
  | succ count ih =>
    rw [replicate_succ, XorBytes.xorBytes_cons, ih]
    rfl

theorem tupleContent_zeroFileStore :
    tupleContent zeroFileStore (repeatedTuple 3 (filledHash 1)) = zeroFile := by
  change XorBytes.xorBytes (XorBytes.xorBytes (XorBytes.xorBytes [] zeroFile)
    zeroFile) zeroFile = zeroFile
  rw [XorBytes.xorBytes_nil_left, zeroFile, xorBytes_zeros, xorBytes_zeros]

theorem storedAs_zeroFile :
    StoredAs (fun _ => filledHash 0) zeroFileStore .standard 3
      [repeatedTuple 3 (filledHash 1)] smallUrl zeroFile := by
  have sized : ∀ tuple ∈ [repeatedTuple 3 (filledHash 1)], tuple.hashes.length = 3 := by
    intro tuple among
    rw [mem_singleton.mp among]
    rfl
  have length : zeroFile.length = 128000 := by rw [zeroFile, length_replicate]
  refine ⟨?_, length.symm, sized, ?_, ?_, ?_, ?_, ?_⟩
  · apply ne_nil_of_length_pos
    rw [length]
    decide
  · rw [length]
    rfl
  · obtain ⟨written, hash, wrote, named, sent⟩ :=
      (fresh_writeableDescriptorCreate .standard 32 3 false false
        0).written_chain (fun _ => filledHash 0) rfl sized
        (.last (cons_ne_nil _ _) (by decide)) (.inr (by decide))
    refine ⟨false, false, 0, written, wrote, ?_, ?_⟩
    · rw [sent, publishedHash_append, publishedHash_descriptorPuts]
      cases named
      rfl
    · have holds := holdsChain_oneBlockStore (fun _ => filledHash 0)
        .standard (filledHash 0) rfl sized (cons_ne_nil _ _) (by decide) written wrote
      intro block among
      have stored := holds block among
      rw [keyStore_bytes, zeroFileStore, if_neg]
      · exact stored
      · intro other
        rw [other, oneBlockStore, if_neg (by decide)] at stored
        cases stored
  · intro tuple among hash named
    rw [mem_singleton.mp among] at named
    rw [(mem_replicate.mp named).2, zeroFileStore, if_pos rfl]
    rfl
  · intro tuple among
    rw [mem_singleton.mp among, tupleContent_zeroFileStore, length]
    rfl
  · rw [contentOf, map_singleton, tupleContent_zeroFileStore]
    simp

/-- A client asks for the file of zeros. -/
theorem zero_file_is_delivered :
    EachStep (getStep (fun _ => some smallUrl) zeroFileStore [])
        (Orderly (fun _ => some smallUrl) (fun _ => filledHash 0) zeroFileStore fun _ => zeroFile)
        (.fresh true false true) [.request (some ⟨"off", none⟩)] ∧
      ∃ (rested : GetConnection) (moves : List (Nat × PipelineStep)),
        [GetStep.request (some ⟨"off", none⟩)].foldlM
          (getStep (fun _ => some smallUrl) zeroFileStore [])
          (.fresh true false true) = some askedForSmallFile ∧
        Delivers (fun _ => some smallUrl) (fun _ => zeroFile) askedForSmallFile ∧
        (moves.map fun move => GetStep.pipeline move.1 move.2).foldlM
          (getStep (fun _ => some smallUrl) zeroFileStore []) askedForSmallFile = some rested ∧
        ConnectionRests (fun _ => some smallUrl) zeroFileStore [] rested := by
  have each : EachStep (getStep (fun _ => some smallUrl) zeroFileStore [])
      (Orderly (fun _ => some smallUrl) (fun _ => filledHash 0) zeroFileStore fun _ => zeroFile)
      (.fresh true false true) [.request (some ⟨"off", none⟩)] := by
    intro next _
    refine ⟨⟨rfl, ?_, _, rfl, rfl, smallUrl, _, rfl,
      isDirectory_smallUrl, storedAs_zeroFile⟩, trivial⟩
    intro number before
    exact absurd before (Nat.not_lt_zero number)
  obtain ⟨cost, delivers⟩ := socket_gets_deliver (fun _ => some smallUrl)
    (fun _ => filledHash 0) zeroFileStore [] (fun _ => zeroFile) (by simp) true false true
  have run : [GetStep.request (some ⟨"off", none⟩)].foldlM
      (getStep (fun _ => some smallUrl) zeroFileStore [])
      (.fresh true false true) = some askedForSmallFile := by
    rfl
  obtain ⟨delivered, _, ⟨moves, rested, moved, rests⟩, _⟩ :=
    delivers [.request (some ⟨"off", none⟩)] _ each run
  exact ⟨each, rested, moves, run, delivered, moved, rests⟩

/-- The answer to a get of a file of which the node has no block. -/
def missingFileSteps : List GetStep :=
  [.pipeline 0 .push, .pipeline 0 (.descriptorReply 0), .pipeline 0 .descriptorEvent,
    .pipeline 0 .readerEvent, .pipeline 0 .readerEvent]

/-- Without the blocks, each of the two streams sends an error, and the closing sends the end. -/
theorem missing_block_sends_three_ends :
    ∃ reached, (GetStep.request (some ⟨"off", none⟩) :: missingFileSteps).foldlM
        (getStep (fun _ => some smallUrl) (fun _ => none) [])
        (.fresh true false true) = some reached ∧
      framesOf reached.frames 0 = [startFrame 128000, .error .notFound "Not found",
          .error .internalError "Stream error", .getEnd] ∧
      ¬ Delivers (fun _ => some smallUrl) (fun _ => zeroFile) reached := by
  obtain ⟨reached, run, frames, requests⟩ : ∃ reached, missingFileSteps.foldlM
      (getStep (fun _ => some smallUrl) (fun _ => none) []) askedForSmallFile = some reached ∧
      framesOf reached.frames 0 = [startFrame 128000, .error .notFound "Not found",
        .error .internalError "Stream error", .getEnd] ∧
      reached.requests = [some ⟨"off", none⟩] := by
    decide +kernel
  refine ⟨reached, run, frames, fun delivers => ?_⟩
  obtain ⟨finalByte, pieces, ends, answers⟩ :=
    delivers.answered 0 ⟨"off", none⟩ smallUrl (by rw [requests]; rfl) rfl
  have shape := frames.symm.trans answers.shape
  cases pieces with
  | nil =>
    have behind := (cons.inj shape).2
    rcases answers.single with none | ⟨single, _⟩ | ⟨⟨_, _, single⟩, _⟩
    · rw [none] at behind
      cases behind
    · rw [single] at behind
      cases behind
    · rw [single] at behind
      cases behind
  | cons piece pieces => cases (cons.inj shape).2

end Liboffs.ClientApi
