import UniDocs.Agent.Transcript
import UniDocs.Lemmas.TranscriptCache
import UniDocs.Lib.Result

/-!
# The transcript is what the provider accepts

Whatever the model, the blobs and the tools come to, and wherever a run ends, the messages that are handed to the provider pair
each use of a tool with its result. A session that is rebuilt from the stored history hands over the same messages as one that is
kept alive, as long as the blobs whose bytes a session has in its cache can still be read: bytes in the cache hide that a blob is
gone (`transcript_rebuilt_false`).
-/

namespace UniDocs.Transcript

open Lib

/-! ## What the provider accepts -/

/-- The uses of tools in a message. -/
def toolUseIds (content : List Block) : List String :=
  content.filterMap fun
    | .toolUse id _ _ => some id
    | .part _ => none
    | .toolResult _ _ => none

/-- The message holds one result for each of the identifiers, in order, and nothing else. -/
def ResultsFor (ids : List String) (content : List Block) : Prop :=
  List.Forall₂ (fun id block => ∃ parts, block = .toolResult id parts) ids content

/-- No message is empty; a message with uses of tools, which differ, is an assistant message and is followed by one user message
with exactly their results; and no other message holds a result. -/
inductive WellFormed : List AnthropicMessage → Prop
  | nil : WellFormed []
  | plain {m : AnthropicMessage} {rest : List AnthropicMessage} (nonempty : m.content ≠ [])
      (noResult : ∀ block ∈ m.content, block.isToolResult = false) (noUse : toolUseIds m.content = []) (tail : WellFormed rest) :
      WellFormed (m :: rest)
  | round {content results : List Block} {rest : List AnthropicMessage}
      (noResult : ∀ block ∈ content, block.isToolResult = false) (uses : toolUseIds content ≠ []) (differ : (toolUseIds content).Nodup)
      (answered : ResultsFor (toolUseIds content) results) (tail : WellFormed rest) :
      WellFormed (⟨.assistant, content⟩ :: ⟨.user, results⟩ :: rest)

theorem WellFormed.append {l l' : List AnthropicMessage} (h : WellFormed l) (h' : WellFormed l') : WellFormed (l ++ l') := by
  induction h with
  | nil => exact h'
  | plain nonempty noResult noUse _ ih => exact .plain nonempty noResult noUse ih
  | round noResult uses differ answered _ ih => exact .round noResult uses differ answered ih

/-! ## Histories -/

/-- The message holds the result of the call. -/
def Message.Answers (m : Message) (id : String) : Prop := ∃ content structuredContent, m = .tool id content structuredContent

/-- A history as runs leave it: each assistant message is followed by the results of its tool calls, which differ. -/
inductive Complete : List Message → Prop
  | nil : Complete []
  | user {h : List Message} {content : List ContentPart} (before : Complete h) (nonempty : content ≠ []) :
      Complete (h ++ [.user content])
  | reply {h : List Message} {content : List ContentPart} (before : Complete h) (nonempty : content ≠ []) :
      Complete (h ++ [.assistant content none])
  | round {h results : List Message} {content : List ContentPart} {calls : List ToolCall} (before : Complete h)
      (uses : calls ≠ []) (differ : (calls.map (·.id)).Nodup)
      (answered : List.Forall₂ (fun call m => Message.Answers m call.id) calls results) :
      Complete (h ++ .assistant content (some calls) :: results)

/-- A message as it is materialized: the same, with as many parts. -/
inductive Shape : Message → LlmMessage → Prop
  | user {content : List ContentPart} {content' : List LlmPart} (length : content'.length = content.length) :
      Shape (.user content) (.user content')
  | assistant {content : List ContentPart} {content' : List LlmPart} {calls : Option (List ToolCall)}
      (length : content'.length = content.length) : Shape (.assistant content calls) (.assistant content' calls)
  | tool {content : List ContentPart} {content' : List LlmPart} {id : String} {structuredContent : Option Json} :
      Shape (.tool id content structuredContent) (.tool id content' structuredContent)

theorem materializeParts_length {contentOf : String → Bytes} {read : Nat → Read} {j : Nat} {parts : List (ContentPart × Option Bytes)}
    {cache : ByteLru} {content : List LlmPart} (h : (materializeParts contentOf read j parts cache).2 = .ok content) :
    content.length = parts.length := by
  induction parts generalizing j cache content with
  | nil =>
    cases h
    rfl
  | cons part parts ih =>
    obtain ⟨head, -, h⟩ := bind_ok_iff.mp h
    obtain ⟨tail, htail, h⟩ := bind_ok_iff.mp h
    cases h
    rw [List.length_cons, List.length_cons, ih htail]

theorem lookUpParts_length (parts : List ContentPart) (cache : ByteLru) : (lookUpParts parts cache).2.length = parts.length := by
  induction parts generalizing cache with
  | nil => rfl
  | cons part parts ih => simp [lookUpParts, ih]

theorem materializeMessage_shape {contentOf : String → Bytes} {read : Nat → Read} {m : Message} {m' : LlmMessage} {cache : ByteLru}
    (h : (materializeMessage contentOf read m cache).2 = .ok m') : Shape m m' := by
  rw [materializeMessage] at h
  cases hparts : (materializeParts contentOf read 0 (m.content.zip (lookUpParts m.content cache).2)
      (lookUpParts m.content cache).1).2 with
  | error e => simp [hparts, Except.map] at h
  | ok content =>
    have hlength := materializeParts_length hparts
    rw [List.length_zip, lookUpParts_length, Nat.min_self] at hlength
    simp only [hparts, Except.map, Except.ok.injEq] at h
    subst h
    cases m with
    | user _ => exact .user hlength
    | assistant _ _ => exact .assistant hlength
    | tool _ _ _ => exact .tool

theorem materializeFrom_shape {contentOf : String → Bytes} {read : Nat → Nat → Read} {i : Nat} {history : List Message}
    {messages : List LlmMessage} {cache : ByteLru} (h : (materializeFrom contentOf read i history cache).2 = .ok messages) :
    List.Forall₂ Shape history messages := by
  induction history generalizing i cache messages with
  | nil =>
    cases h
    exact .nil
  | cons m history ih =>
    rw [materializeFrom] at h
    split at h
    · cases h
    · rename_i cache' head hhead
      obtain ⟨tail, htail, h⟩ := bind_ok_iff.mp h
      cases h
      exact .cons (materializeMessage_shape (by rw [hhead])) (ih htail)

/-! ## The translation -/

theorem toolUseIds_parts (content : List LlmPart) : toolUseIds (content.map fun part => .part (toBlock part)) = [] := by
  induction content with
  | nil => rfl
  | cons part content ih => exact ih

theorem toolUseIds_calls (content : List LlmPart) (calls : List ToolCall) :
    toolUseIds ((content.map fun part => .part (toBlock part)) ++ calls.map toolUseBlock) = calls.map (·.id) := by
  rw [toolUseIds, List.filterMap_append]
  have hparts := toolUseIds_parts content
  rw [toolUseIds] at hparts
  rw [hparts, List.nil_append, List.filterMap_map]
  induction calls with
  | nil => rfl
  | cons call calls ih => simpa [toolUseBlock] using ih

theorem noResult_parts (content : List LlmPart) (calls : List ToolCall) :
    ∀ block ∈ (content.map fun part => Block.part (toBlock part)) ++ calls.map toolUseBlock, block.isToolResult = false := by
  intro block hblock
  rcases List.mem_append.mp hblock with hm | hm
  · obtain ⟨_, _, rfl⟩ := List.mem_map.mp hm
    rfl
  · obtain ⟨_, _, rfl⟩ := List.mem_map.mp hm
    rfl

theorem ResultsFor.all {ids : List String} {results : List Block} (h : ResultsFor ids results) :
    results.all Block.isToolResult = true := by
  induction h with
  | nil => rfl
  | cons hblock _ ih =>
    obtain ⟨parts, rfl⟩ := hblock
    exact ih

/-- Further results join the ones that are there. -/
theorem pushMessage_results {out : List AnthropicMessage} {results : List Block} (hresults : results.all Block.isToolResult = true)
    (id : String) (content : List LlmPart) (structuredContent : Option Json) :
    pushMessage (out ++ [⟨.user, results⟩]) (.tool id content structuredContent) =
      out ++ [⟨.user, results ++ [toolResultBlock id content structuredContent]⟩] := by
  simp [pushMessage, hresults]

theorem push_results {out : List AnthropicMessage} {results : List Block} {ids : List String} {calls : List ToolCall}
    {history : List Message} {messages : List LlmMessage} (hresults : ResultsFor ids results)
    (hanswers : List.Forall₂ (fun call m => Message.Answers m call.id) calls history) (hshape : List.Forall₂ Shape history messages) :
    ∃ results', messages.foldl pushMessage (out ++ [⟨.user, results⟩]) = out ++ [⟨.user, results'⟩] ∧
      ResultsFor (ids ++ calls.map (·.id)) results' := by
  induction hanswers generalizing results ids messages with
  | nil =>
    cases hshape
    exact ⟨results, rfl, by simpa using hresults⟩
  | @cons call m calls history hm _ ih =>
    obtain ⟨content, structuredContent, rfl⟩ := hm
    cases hshape with
    | cons hfirst hrest =>
      cases hfirst with
      | @tool _ content' _ _ =>
        have hjoined : ResultsFor (ids ++ [call.id]) (results ++ [toolResultBlock call.id content' structuredContent]) :=
          List.rel_append hresults (.cons ⟨_, rfl⟩ .nil)
        obtain ⟨results', hfold, hfor⟩ := ih hjoined hrest
        refine ⟨results', ?_, by simpa using hfor⟩
        rw [List.foldl_cons, pushMessage_results hresults.all]
        exact hfold

theorem push_first {out : List AnthropicMessage} {content : List Block} (id : String) (parts : List LlmPart)
    (structuredContent : Option Json) :
    pushMessage (out ++ [⟨.assistant, content⟩]) (.tool id parts structuredContent) =
      out ++ [⟨.assistant, content⟩] ++ [⟨.user, [toolResultBlock id parts structuredContent]⟩] := by
  simp [pushMessage]

theorem forall₂_append_left {α β : Type} {R : α → β → Prop} {l l' : List α} {xs : List β} (h : List.Forall₂ R (l ++ l') xs) :
    ∃ a b, xs = a ++ b ∧ List.Forall₂ R l a ∧ List.Forall₂ R l' b := by
  induction l generalizing xs with
  | nil => exact ⟨[], xs, rfl, .nil, h⟩
  | cons x l ih =>
    cases h with
    | cons hx hrest =>
      obtain ⟨a, b, rfl, ha, hb⟩ := ih hrest
      exact ⟨_ :: a, b, rfl, .cons hx ha, hb⟩

theorem Complete.wellFormed {history : List Message} {messages : List LlmMessage} (h : Complete history)
    (hshape : List.Forall₂ Shape history messages) : WellFormed (toAnthropicMessages messages) := by
  induction h generalizing messages with
  | nil =>
    cases hshape
    exact .nil
  | user before nonempty ih =>
    obtain ⟨start, last, rfl, hstart, hlast⟩ := forall₂_append_left hshape
    cases hlast with
    | cons hmessage hnil =>
      cases hnil
      cases hmessage with
      | @user content content' hlength =>
        rw [toAnthropicMessages, List.foldl_append]
        refine (ih hstart).append (.plain ?_ ?_ (toolUseIds_parts content') .nil)
        · intro hempty
          rw [List.map_eq_nil_iff] at hempty
          rw [hempty] at hlength
          exact nonempty (List.length_eq_zero_iff.mp hlength.symm)
        · simpa using noResult_parts content' []
  | reply before nonempty ih =>
    obtain ⟨start, last, rfl, hstart, hlast⟩ := forall₂_append_left hshape
    cases hlast with
    | cons hmessage hnil =>
      cases hnil
      cases hmessage with
      | @assistant content content' _ hlength =>
        rw [toAnthropicMessages, List.foldl_append]
        refine (ih hstart).append (.plain ?_ (noResult_parts content' []) (toolUseIds_calls content' []) .nil)
        intro hempty
        rw [List.append_eq_nil_iff, List.map_eq_nil_iff] at hempty
        rw [hempty.1] at hlength
        exact nonempty (List.length_eq_zero_iff.mp hlength.symm)
  | @round h results content calls before uses differ answered ih =>
    obtain ⟨start, last, rfl, hstart, hlast⟩ := forall₂_append_left hshape
    cases hlast with
    | cons hmessage hresults =>
      cases hmessage with
      | @assistant _ content' _ _ =>
        cases answered with
        | nil => exact absurd rfl uses
        | @cons call m calls results hm hrest =>
          obtain ⟨parts, structuredContent, rfl⟩ := hm
          cases hresults with
          | cons hfirst hresults =>
            cases hfirst with
            | @tool _ parts' _ _ =>
              have hone : ResultsFor [call.id] [toolResultBlock call.id parts' structuredContent] := .cons ⟨_, rfl⟩ .nil
              have huses := toolUseIds_calls content' (call :: calls)
              obtain ⟨blocks, hfold, hfor⟩ := push_results hone hrest hresults
              rw [toAnthropicMessages, List.foldl_append, List.foldl_cons, List.foldl_cons, pushMessage, push_first, hfold,
                List.append_assoc]
              refine (ih hstart).append (.round (noResult_parts content' (call :: calls)) ?_ ?_ ?_ .nil)
              · rw [Option.getD_some, huses]
                exact List.cons_ne_nil _ _
              · rw [Option.getD_some, huses]
                exact differ
              · rw [Option.getD_some, huses]
                exact hfor

/-! ## The stored history -/

theorem createSBlob_hash (blob : SBlob) : createSBlob blob.hash = .ok blob := dif_pos blob.valid

theorem decodePart_encodePart (part : ContentPart) : decodePart (encodePart part) = .ok part := by
  cases part with
  | text text => rfl
  | image blob mediaType altText =>
    cases altText <;> simp [encodePart, decodePart, optionalField, Json.isObject, Json.field?, stringField, bind, Except.bind,
      createSBlob_hash, pure, Except.pure, Json.toText]
  | file blob mediaType filename =>
    cases filename <;> simp [encodePart, decodePart, optionalField, Json.isObject, Json.field?, stringField, bind, Except.bind,
      createSBlob_hash, pure, Except.pure, Json.toText]

theorem mapM_ok {α β : Type} {f : α → Except String β} {g : β → α} (hf : ∀ b, f (g b) = .ok b) (l : List β) :
    (l.map g).mapM f = .ok l := by
  induction l with
  | nil => rfl
  | cons b l ih => simp [List.mapM_cons, hf, ih, bind, Except.bind, pure, Except.pure]

theorem decodeToolCall_encodeToolCall (call : ToolCall) : decodeToolCall (encodeToolCall call) = .ok call := rfl

theorem decodeToolCalls_encode (calls : List ToolCall) : decodeToolCalls (.array (calls.map encodeToolCall)) = .ok calls :=
  mapM_ok decodeToolCall_encodeToolCall calls

theorem decodeMessage_encodeMessage (m : Message) : decodeMessage (encodeMessage m) = .ok m := by
  have hparts := mapM_ok decodePart_encodePart m.content
  cases m with
  | user content =>
    simp only [Message.content] at hparts
    simp [encodeMessage, decodeMessage, Json.isObject, Json.field?, hparts, bind, Except.bind, pure, Except.pure]
  | assistant content toolCalls =>
    simp only [Message.content] at hparts
    cases toolCalls with
    | none =>
      simp [encodeMessage, decodeMessage, optionalField, Json.isObject, Json.field?, hparts, bind, Except.bind, pure, Except.pure]
    | some calls =>
      simp [encodeMessage, decodeMessage, optionalField, Json.isObject, Json.field?, hparts, decodeToolCalls_encode, bind,
        Except.bind, pure, Except.pure]
  | tool callId content structuredContent =>
    simp only [Message.content] at hparts
    cases structuredContent <;> simp [encodeMessage, decodeMessage, optionalField, Json.isObject, Json.field?, hparts, stringField,
      bind, Except.bind, pure, Except.pure]

theorem decodeHistory_encodeHistory (history : List Message) : decodeHistory (encodeHistory history) = .ok history :=
  mapM_ok decodeMessage_encodeMessage history

theorem rebuild_eq (s : Session) : s.rebuild = some ⟨s.history, .empty⟩ := by
  rw [Session.rebuild, decodeHistory_encodeHistory]

theorem session_of_call (rebuilt : Bool) (s : Session) :
    ∃ s', (if rebuilt then s.rebuild else some s) = some s' ∧ s'.history = s.history ∧
      ∀ contentOf, s.blobCache.Coherent contentOf → s'.blobCache.Coherent contentOf := by
  cases rebuilt with
  | false => exact ⟨s, rfl, rfl, fun _ h => h⟩
  | true => exact ⟨_, rebuild_eq s, rfl, fun _ _ => coherent_empty⟩

/-! ## Runs keep the history complete -/

/-- The tool calls of each completion differ. -/
def Turn.Distinct (t : Turn) : Prop :=
  ∀ completion, t.completion = .ok completion → ((completion.toolCalls.getD []).map (·.id)).Nodup

/-- A run has content, and the completions of its provider are distinct. -/
def Call.Valid : Call → Prop
  | .run content _ turn => content ≠ [] ∧ ∀ k, (turn k).Distinct
  | .reset => True

/-- What is handed to the provider is a complete history, materialized. -/
def Request.FromComplete (contentOf : String → Bytes) (r : Request) : Prop :=
  Complete r.history ∧ r.result = (materializeMessages contentOf r.read r.history r.blobCache).2

section Runs

variable {tools : List (String × ToolKind)} {contentOf : String → Bytes}

theorem toolMessages_answer (invocation : Nat → Invocation) (k : Nat) (calls : List ToolCall) :
    List.Forall₂ (fun call m => Message.Answers m call.id) calls (toolMessages tools invocation k calls) := by
  induction calls generalizing k with
  | nil => exact .nil
  | cons call calls ih => exact .cons ⟨_, _, rfl⟩ (ih (k + 1))

theorem iterate_complete {maxIterations : Nat} {turn : Nat → Turn} (hturn : ∀ k, (turn k).Distinct) (left done : Nat)
    (called : List String) {s : Session} (hs : Complete s.history) :
    (∀ r ∈ (iterate tools contentOf maxIterations turn left done called s).1, r.FromComplete contentOf) ∧
      Complete (iterate tools contentOf maxIterations turn left done called s).2.1.history := by
  induction left generalizing done called s with
  | zero => exact ⟨fun _ hr => absurd hr List.not_mem_nil, hs⟩
  | succ left ih =>
    have hfirst : ∀ cache, Request.FromComplete contentOf
        ⟨s.history, cache, (turn done).read, (materializeMessages contentOf (turn done).read s.history cache).2⟩ :=
      fun cache => ⟨hs, rfl⟩
    have hone : ∀ r ∈ [(⟨s.history, s.blobCache, (turn done).read,
        (materializeMessages contentOf (turn done).read s.history s.blobCache).2⟩ : Request)], r.FromComplete contentOf := by
      intro r hr
      rw [List.mem_singleton.mp hr]
      exact hfirst _
    rw [iterate]
    split
    · exact ⟨hone, hs⟩
    · exact ⟨hone, hs⟩
    · rename_i completion _ hcompletion
      simp only
      split
      · exact ⟨hone, hs⟩
      · rename_i hsome
        split
        · rename_i hnocall
          refine ⟨hone, hs.reply ?_⟩
          intro hempty
          exact hsome ⟨hnocall, by simpa using hempty⟩
        · rename_i hcalls
          have hround : Complete (s.history ++ Message.assistant ((assistantTexts completion).map ContentPart.text)
              (some (completion.toolCalls.getD [])) :: toolMessages tools (turn done).invocation 0 (completion.toolCalls.getD [])) :=
            hs.round (by simpa using hcalls) (hturn done completion hcompletion) (toolMessages_answer _ _ _)
          obtain ⟨hrequests, hfinal⟩ := ih (done + 1) (called ++ (completion.toolCalls.getD []).map (·.name)) (s := ⟨_, _⟩) hround
          refine ⟨fun r hr => ?_, hfinal⟩
          rcases List.mem_cons.mp hr with rfl | hr
          · exact hfirst _
          · exact hrequests r hr

theorem serve_complete {plan : List (Bool × Call)} (hplan : ∀ p ∈ plan, p.2.Valid) {s : Session} (hs : Complete s.history) :
    ∀ r ∈ serve tools contentOf plan s, r.FromComplete contentOf := by
  induction plan generalizing s with
  | nil => exact fun _ hr => absurd hr List.not_mem_nil
  | cons p plan ih =>
    obtain ⟨rebuilt, call⟩ := p
    have hrest : ∀ p ∈ plan, p.2.Valid := fun p hp => hplan p (List.mem_cons_of_mem _ hp)
    obtain ⟨s', hsome, hhistory, -⟩ := session_of_call rebuilt s
    rw [serve, hsome]
    cases call with
    | reset => exact ih hrest .nil
    | run content maxIterations turn =>
      obtain ⟨hcontent, hturn⟩ := hplan _ List.mem_cons_self
      have hstart : Complete (s'.history ++ [.user content]) := .user (hhistory ▸ hs) hcontent
      obtain ⟨hrequests, hfinal⟩ := iterate_complete (s := ⟨s'.history ++ [.user content], s'.blobCache⟩) hturn maxIterations 0 [] hstart
      intro r hr
      rcases List.mem_append.mp hr with hr | hr
      · exact hrequests r hr
      · exact ih hrest hfinal r hr

/-- The same calls, with the session rebuilt at different points. -/
theorem serve_same {plan plan' : List (Bool × Call)} (hcalls : plan'.map (·.2) = plan.map (·.2)) {s s' : Session}
    (hhistory : s'.history = s.history) (hc : s.blobCache.Coherent contentOf) (hc' : s'.blobCache.Coherent contentOf)
    (hread : ∀ r ∈ serve tools contentOf plan s, r.CachedReadable contentOf)
    (hread' : ∀ r ∈ serve tools contentOf plan' s', r.CachedReadable contentOf) :
    (serve tools contentOf plan' s').map (·.result) = (serve tools contentOf plan s).map (·.result) := by
  induction plan generalizing plan' s s' with
  | nil =>
    rw [List.map_nil, List.map_eq_nil_iff] at hcalls
    rw [hcalls]
    rfl
  | cons p plan ih =>
    obtain ⟨rebuilt, call⟩ := p
    cases plan' with
    | nil => cases hcalls
    | cons p' plan' =>
      obtain ⟨rebuilt', call'⟩ := p'
      obtain ⟨rfl, hrest⟩ : call' = call ∧ plan'.map (·.2) = plan.map (·.2) := by simpa using hcalls
      obtain ⟨⟨history, cache⟩, hsome, hsame, hcoherent⟩ := session_of_call rebuilt s
      obtain ⟨⟨history', cache'⟩, hsome', hsame', hcoherent'⟩ := session_of_call rebuilt' s'
      obtain rfl : history' = history := hsame'.trans (hhistory.trans hsame.symm)
      rw [serve, hsome] at hread
      rw [serve, hsome'] at hread'
      rw [serve, hsome', serve, hsome]
      cases call' with
      | reset => exact ih hrest rfl (hcoherent _ hc) (hcoherent' _ hc') hread hread'
      | run content maxIterations turn =>
        simp only at hread hread' ⊢
        obtain ⟨hresults, hfinal, hfinalc, hfinalc'⟩ := run_same (hcoherent _ hc) (hcoherent' _ hc')
          (fun r hr => hread r (List.mem_append_left _ hr)) (fun r hr => hread' r (List.mem_append_left _ hr))
        have htail := ih hrest hfinal.symm hfinalc hfinalc' (fun r hr => hread r (List.mem_append_right _ hr))
          (fun r hr => hread' r (List.mem_append_right _ hr))
        rw [List.map_append, List.map_append, htail]
        exact congrArg (· ++ _) hresults.symm

end Runs

/-! ## Every sequence of calls -/

section Reads

variable {tools : List (String × ToolKind)} {contentOf : String → Bytes}

theorem iterate_read {maxIterations : Nat} {turn : Nat → Turn} (left done : Nat) (called : List String) {s : Session} :
    ∀ r ∈ (iterate tools contentOf maxIterations turn left done called s).1, ∃ k, r.read = (turn k).read := by
  induction left generalizing done called s with
  | zero => exact fun _ hr => absurd hr List.not_mem_nil
  | succ left ih =>
    have hone : ∀ r : Request, r.read = (turn done).read → ∀ r' ∈ [r], ∃ k, r'.read = (turn k).read := by
      intro r hread r' hr'
      rw [List.mem_singleton.mp hr']
      exact ⟨done, hread⟩
    rw [iterate]
    split
    · exact hone _ rfl
    · exact hone _ rfl
    · simp only
      split
      · exact hone _ rfl
      · split
        · exact hone _ rfl
        · intro r hr
          rcases List.mem_cons.mp hr with rfl | hr
          · exact ⟨done, rfl⟩
          · exact ih _ _ r hr

theorem serve_read {plan : List (Bool × Call)} {s : Session} :
    ∀ r ∈ serve tools contentOf plan s, ∃ rebuilt content maxIterations turn k,
      (rebuilt, Call.run content maxIterations turn) ∈ plan ∧ r.read = (turn k).read := by
  induction plan generalizing s with
  | nil => exact fun _ hr => absurd hr List.not_mem_nil
  | cons p plan ih =>
    obtain ⟨rebuilt, call⟩ := p
    have hlater : ∀ s', ∀ r ∈ serve tools contentOf plan s', ∃ rebuilt' content maxIterations turn k,
        (rebuilt', Call.run content maxIterations turn) ∈ (rebuilt, call) :: plan ∧ r.read = (turn k).read := by
      intro s' r hr
      obtain ⟨rebuilt', content, maxIterations, turn, k, hm, hread⟩ := ih r hr
      exact ⟨rebuilt', content, maxIterations, turn, k, List.mem_cons_of_mem _ hm, hread⟩
    rw [serve]
    split
    · exact hlater _
    · cases call with
      | reset => exact hlater _
      | run content maxIterations turn =>
        intro r hr
        rcases List.mem_append.mp hr with hr | hr
        · obtain ⟨k, hread⟩ := iterate_read maxIterations 0 [] r hr
          exact ⟨rebuilt, content, maxIterations, turn, k, List.mem_cons_self, hread⟩
        · exact hlater _ r hr

theorem cachedReadable_of_found {read : Nat → Nat → Read} (hread : ∀ i j, read i j = .found) (i : Nat) (messages : List Message)
    (cache : ByteLru) : CachedReadable contentOf read i messages cache := by
  induction messages generalizing i cache with
  | nil => exact trivial
  | cons m messages ih => exact ⟨fun j _ _ => hread i j, ih (i + 1) _⟩

theorem serve_readable {plan : List (Bool × Call)} {s : Session} (hfound : ∀ rebuilt content maxIterations turn,
    (rebuilt, Call.run content maxIterations turn) ∈ plan → ∀ k i j, (turn k).read i j = .found) :
    ∀ r ∈ serve tools contentOf plan s, r.CachedReadable contentOf := by
  intro r hr
  obtain ⟨rebuilt, content, maxIterations, turn, k, hm, hread⟩ := serve_read r hr
  rw [Request.CachedReadable, hread]
  exact cachedReadable_of_found (hfound rebuilt content maxIterations turn hm k) _ _ _

end Reads

/-- A session without a history. -/
def Session.start : Session := ⟨[], .empty⟩

/-- Whatever the calls and their turns, every list handed to the provider is translated to what it accepts; and the lists are the
same whether or not the session is rebuilt, as long as what a session has in its cache can still be read. -/
theorem transcript_well_formed {tools : List (String × ToolKind)} {contentOf : String → Bytes} {plan : List (Bool × Call)}
    (hplan : ∀ p ∈ plan, p.2.Valid) :
    (∀ r ∈ serve tools contentOf plan .start, ∀ messages, r.result = .ok messages → WellFormed (toAnthropicMessages messages)) ∧
      ∀ plan', plan'.map (·.2) = plan.map (·.2) →
        (∀ r ∈ serve tools contentOf plan .start, r.CachedReadable contentOf) →
        (∀ r ∈ serve tools contentOf plan' .start, r.CachedReadable contentOf) →
        (serve tools contentOf plan' .start).map (·.result) = (serve tools contentOf plan .start).map (·.result) := by
  refine ⟨fun r hr messages hresult => ?_, fun plan' hcalls hread hread' => ?_⟩
  · obtain ⟨hcomplete, hmaterialized⟩ := serve_complete hplan .nil r hr
    rw [hresult] at hmaterialized
    exact hcomplete.wellFormed (materializeFrom_shape hmaterialized.symm)
  · exact serve_same hcalls rfl coherent_empty coherent_empty hread hread'

/-! ## Two conversations -/

theorem sampleHash_valid : Codec.IsHash (String.ofList (List.replicate 64 'a')) := by decide

/-- A blob, and a turn in which the provider answers with a text. -/
def sampleBlob : SBlob := ⟨String.ofList (List.replicate 64 'a'), sampleHash_valid⟩

def textTurn (read : Read) (text : String) : Turn :=
  ⟨fun _ _ => read, .ok ⟨[.text text], none, some "end_turn"⟩, fun _ => ⟨none, .null, 0, ⟨none, none⟩⟩⟩

/-- A turn in which the provider calls two tools, of which one fails. -/
def toolTurn : Turn :=
  ⟨fun _ _ => .found, .ok ⟨[], some [⟨"call1", "setText", .object []⟩, ⟨"call2", "missing", .object []⟩], some "tool_use"⟩,
    fun _ => ⟨none, .null, 7, ⟨none, none⟩⟩⟩

/-- A run about an image, in which the provider calls tools, and another run on the session or on a rebuilt one. -/
def toolPlan (rebuilt : Bool) : List (Bool × Call) :=
  [(false, .run [.image sampleBlob "image/png" none] 5 fun k => if k = 0 then toolTurn else textTurn .found "done"),
    (rebuilt, .run [.text "again"] 5 fun _ => textTurn .found "still done")]

theorem transcript_well_formed_tools :
    let served rebuilt := serve [("setText", .op)] (fun _ => [1, 2, 3]) (toolPlan rebuilt) .start
    (served false).length = 3 ∧ (∀ r ∈ served false, ∀ messages, r.result = .ok messages → WellFormed (toAnthropicMessages messages)) ∧
      (served true).map (·.result) = (served false).map (·.result) := by
  intro served
  have hfound : ∀ b rebuilt content maxIterations turn, (rebuilt, Call.run content maxIterations turn) ∈ toolPlan b →
      ∀ k i j, (turn k).read i j = .found := by
    intro b rebuilt content maxIterations turn hm k i j
    simp only [toolPlan, List.mem_cons, Prod.mk.injEq, Call.run.injEq, List.not_mem_nil, or_false] at hm
    rcases hm with ⟨-, -, -, rfl⟩ | ⟨-, -, -, rfl⟩
    · by_cases hk : k = 0 <;> simp [hk, toolTurn, textTurn]
    · rfl
  have hvalid : ∀ p ∈ toolPlan false, p.2.Valid := by
    intro p hp
    simp only [toolPlan, List.mem_cons, List.not_mem_nil, or_false] at hp
    rcases hp with rfl | rfl
    · refine ⟨List.cons_ne_nil _ _, fun k completion hcompletion => ?_⟩
      by_cases hk : k = 0
      · simp only [hk, if_true, toolTurn, Except.ok.injEq] at hcompletion
        subst hcompletion
        decide
      · simp only [hk, if_false, textTurn, Except.ok.injEq] at hcompletion
        subst hcompletion
        exact List.nodup_nil
    · refine ⟨List.cons_ne_nil _ _, fun k completion hcompletion => ?_⟩
      simp only [textTurn, Except.ok.injEq] at hcompletion
      subst hcompletion
      exact List.nodup_nil
  obtain ⟨hwell, hsame⟩ := @transcript_well_formed [("setText", .op)] (fun _ => [1, 2, 3]) _ hvalid
  exact ⟨by decide, hwell, hsame (toolPlan true) rfl (serve_readable (hfound false)) (serve_readable (hfound true))⟩

/-- A run about an image, and another run after the blob is gone. -/
def gonePlan (rebuilt : Bool) : List (Bool × Call) :=
  [(false, .run [.image sampleBlob "image/png" none] 5 fun _ => textTurn .found "done"),
    (rebuilt, .run [.text "again"] 5 fun _ => textTurn .unavailable "still done")]

/-- The texts and images of a list of messages. -/
def shownParts (result : Except String (List LlmMessage)) : List (List PartBlock) :=
  match result with
  | .ok messages => (toAnthropicMessages messages).map fun m => m.content.filterMap fun
    | .part block => some block
    | .toolUse _ _ _ => none
    | .toolResult _ _ => none
  | .error _ => []

/-- The session that is kept alive shows an image that is gone from its cache; the one that is rebuilt shows a text in its place. -/
theorem transcript_rebuilt_false :
    let served rebuilt := serve [] (fun _ => [1, 2, 3]) (gonePlan rebuilt) .start
    (∀ p ∈ gonePlan false, p.2.Valid) ∧ (gonePlan true).map (·.2) = (gonePlan false).map (·.2) ∧
      (served true).map (·.result) ≠ (served false).map (·.result) := by
  intro served
  refine ⟨?_, rfl, fun h => ?_⟩
  · intro p hp
    simp only [gonePlan, List.mem_cons, List.not_mem_nil, or_false] at hp
    rcases hp with rfl | rfl
    all_goals
      refine ⟨List.cons_ne_nil _ _, fun k completion hcompletion => ?_⟩
      simp only [textTurn, Except.ok.injEq] at hcompletion
      subst hcompletion
      exact List.nodup_nil
  · have hshown := congrArg (List.map shownParts) h
    exact absurd hshown (by decide)

end UniDocs.Transcript
