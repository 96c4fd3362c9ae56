import DaemonNode.Store.Operations
import Mathlib.Data.List.TakeWhile

/-!
# Repair of a message sequence

What the engine sends to a provider is a flat list of messages. Compaction can cut
off the user message that opened a turn, and a suspended turn leaves tool calls
without results. One pass over the list restores what providers expect: messages
before the first user message are dropped, each tool call gets one result and
results without a call go, blank messages go, and text of the user that follows
text of the user is joined to it.
-/

namespace DaemonNode.Engine

open SessionStore.Store (trim isWhitespace)
open List (mem_cons_self append_assoc mem_append mem_append_right)

inductive Role
  | user
  | assistant
  | tool
  | other (name : String)
  deriving DecidableEq, Repr

structure ToolCall where
  (callId name args : String)
  deriving DecidableEq, Repr

structure RequestImage where
  (mime dataBase64 : String)
  deriving DecidableEq, Repr

/-- One message of a request. -/
structure RequestMsg where
  role : Role
  content : String
  toolCalls : List ToolCall
  toolCallId : Option String
  cacheBreakpoint : Bool
  images : List RequestImage
  deriving DecidableEq, Repr

/-- A text without any other character than white space. -/
def blank (text : String) : Bool :=
  (trim text).isEmpty

namespace RequestMsg

variable (message : RequestMsg)

/-- A message of the assistant that calls tools. -/
def issuesCalls : Bool :=
  message.role = .assistant && !message.toolCalls.isEmpty

def callIds : List String :=
  message.toolCalls.map ToolCall.callId

def isTool : Bool :=
  message.role = .tool

/-- The call that a result answers; a result that names none has the empty name. -/
def resultId : String :=
  message.toolCallId.getD ""

/-- A message of the user without images. -/
def isText : Bool :=
  message.role = .user && message.images.isEmpty

/-- A message of the assistant that calls no tool. -/
def isReply : Bool :=
  message.role = .assistant && message.toolCalls.isEmpty

/-- A message of the user, with images or without, or a reply. -/
def isSpeech : Bool :=
  message.role = .user || message.isReply

/-- A text of the user, or a reply. -/
def isPlain : Bool :=
  message.isText || message.isReply

end RequestMsg

open RequestMsg (isTool resultId isSpeech)

def missingResult : String := "[tool result unavailable: the call did not complete]"

/-- Drop everything before the first message of the user, if there is one. -/
def trimLeading (messages : List RequestMsg) : List RequestMsg :=
  match messages.findIdx? fun message => message.role = .user with
  | some firstUser => messages.drop firstUser
  | none => messages

/-- A result with a text. -/
def fillResult (result : RequestMsg) : RequestMsg :=
  if blank result.content then { result with content := missingResult } else result

/-- Keep the first result for an expected call. -/
def keepResult (expected : List String) (state : List RequestMsg × List String)
    (result : RequestMsg) : List RequestMsg × List String :=
  if expected.contains result.resultId && !state.2.contains result.resultId then
    (state.1 ++ [fillResult result], state.2 ++ [result.resultId])
  else state

/-- The result that stands in for a missing one. -/
def syntheticResult (id : String) : RequestMsg where
  role := .tool
  content := missingResult
  toolCalls := []
  toolCallId := some id
  cacheBreakpoint := false
  images := []

/-- The results after a message with calls: what is kept of those that follow it,
then one for each call left without. -/
def reconcile (expected : List String) (results : List RequestMsg) : List RequestMsg :=
  let (kept, answered) := results.foldl (keepResult expected) ([], [])
  kept ++ (expected.filter fun id => !answered.contains id).map syntheticResult

/-- Two texts of the user as one. -/
def joined (previous current : String) : String :=
  if previous.isEmpty then current else previous ++ "\n\n" ++ current

/-- Append a plain message, unless it is blank, or join it to the text before. -/
def pushPlain (out : List RequestMsg) (message : RequestMsg) : List RequestMsg :=
  if blank message.content then out
  else
    match out.getLast? with
    | none => out ++ [message]
    | some last =>
      if message.isText && last.isText then
        out.dropLast ++ [{ last with content := joined last.content message.content }]
      else out ++ [message]

/-- The messages still to be read, and what is put out. -/
def repairLoop (messages out : List RequestMsg) : List RequestMsg :=
  match messages with
  | [] => out
  | message :: rest =>
    if message.issuesCalls then
      repairLoop (rest.dropWhile isTool)
        (out ++ message :: reconcile message.callIds (rest.takeWhile isTool))
    else
      match message.role with
      | .tool => repairLoop rest out
      | .assistant => repairLoop rest (pushPlain out message)
      | .user => repairLoop rest (pushPlain out message)
      | .other _ => repairLoop rest (out ++ [message])
termination_by messages.length
decreasing_by
  · exact Nat.lt_succ_of_le (List.dropWhile_sublist _).length_le
  · exact Nat.lt_succ_self _
  · exact Nat.lt_succ_self _
  · exact Nat.lt_succ_self _
  · exact Nat.lt_succ_self _

def repairMessageSequence (messages : List RequestMsg) : List RequestMsg :=
  repairLoop (trimLeading messages) []

/-- Results that answer the calls: one for each call name, with a text, and no
others. -/
structure Answers (ids : List String) (results : List RequestMsg) : Prop where
  distinct : (results.map resultId).Nodup
  complete : ∀ id, id ∈ results.map resultId ↔ id ∈ ids
  spoken : ∀ result ∈ results, blank result.content = false

/-- A tool result stands after a message with calls or after another result. -/
def Placed (previous next : RequestMsg) : Prop :=
  next.isTool = true → previous.isTool = true ∨ previous.issuesCalls = true

/-- No text of the user follows another. -/
def Apart (previous next : RequestMsg) : Prop :=
  ¬(previous.isText = true ∧ next.isText = true)

/-- Results stand with their calls, and texts of the user apart. -/
structure Arranged (messages : List RequestMsg) : Prop where
  /-- The results right after a message with calls answer its calls. -/
  answered : ∀ earlier caller later, messages = earlier ++ caller :: later →
    caller.issuesCalls = true →
    Answers caller.callIds (later.takeWhile isTool)
  placed : messages.IsChain Placed
  apart : messages.IsChain Apart

/-- A sequence that providers accept. -/
structure WellFormed (messages : List RequestMsg) : Prop extends Arranged messages where
  spoken : ∀ message ∈ messages, message.isPlain = true → blank message.content = false
  opening : ∀ first ∈ messages.head?, first.role = .user

/-- What the pass puts out, apart from its first message: no message of the user is blank, also
none with images. -/
structure Formed (messages : List RequestMsg) : Prop extends Arranged messages where
  headed : ∀ first ∈ messages.head?, first.isTool = false
  spoken : ∀ message ∈ messages, message.isSpeech = true → blank message.content = false

def users (messages : List RequestMsg) : List RequestMsg :=
  messages.filter fun message => message.role = .user

def spokenUsers (messages : List RequestMsg) : List RequestMsg :=
  (users messages).filter fun message => !blank message.content

/-- How messages of the user come out: each by itself, or joined to the one before. -/
inductive Merges : List RequestMsg → List RequestMsg → Prop
  | nil : Merges [] []
  | push : Merges past out → Merges (past ++ [message]) (out ++ [message])
  | join : Merges past (out ++ [last]) → message.isText = true →
      Merges (past ++ [message])
        (out ++ [{ last with content := joined last.content message.content }])

theorem blank_eq_true_iff : blank text = true ↔ ∀ char ∈ text.toList, isWhitespace char = true := by
  unfold blank trim
  rw [String.isEmpty_iff, String.ofList_eq_empty_iff, List.reverse_eq_nil_iff,
    ← List.dropWhile_eq_nil_iff]
  constructor
  · intro trailing
    -- what is left of the text would start with a character that is no white space
    by_contra left
    have white := List.dropWhile_eq_nil_iff.mp trailing
      _ (List.mem_reverse.mpr (List.head_mem left))
    rw [List.head_dropWhile_not isWhitespace left] at white
    exact Bool.false_ne_true white
  · intro nothing
    rw [nothing]
    rfl

theorem blank_append (spoken : blank first = false) (second : String) :
    blank (first ++ second) = false := by
  rw [← Bool.not_eq_true, blank_eq_true_iff] at spoken ⊢
  intro white
  refine spoken fun char member => white char ?_
  rw [String.toList_append]
  exact List.mem_append_left _ member

theorem blank_joined (spoken : blank previous = false) (current : String) :
    blank (joined previous current) = false := by
  have filled : previous.isEmpty = false := by
    cases empty : previous.isEmpty with
    | false => rfl
    | true =>
      rw [String.isEmpty_iff.mp empty] at spoken
      exact absurd spoken (by decide)
  rw [joined, filled, if_neg Bool.false_ne_true, String.append_assoc]
  exact blank_append spoken _

theorem blank_fillResult (result : RequestMsg) : blank (fillResult result).content = false := by
  unfold fillResult
  split
  · change blank missingResult = false
    decide +kernel
  · next spoken => exact Bool.eq_false_of_not_eq_true spoken

/-- What has been kept of the results read so far. -/
structure Kept (expected : List String) (read : List RequestMsg)
    (state : List RequestMsg × List String) : Prop where
  names : state.1.map resultId = state.2
  distinct : state.2.Nodup
  asked : ∀ id ∈ state.2, id ∈ expected
  given : ∀ id ∈ state.2, id ∈ read.map resultId
  answered : ∀ result ∈ read, result.resultId ∈ expected → result.resultId ∈ state.2
  spoken : ∀ result ∈ state.1, blank result.content = false
  tools : (∀ result ∈ read, result.isTool = true) → ∀ result ∈ state.1, result.isTool = true

variable {results : List RequestMsg} {result message : RequestMsg}
variable {rest messages : List RequestMsg}

theorem Kept.step {read : List RequestMsg} (kept : Kept expected read state) (result : RequestMsg) :
    Kept expected (read ++ [result]) (keepResult expected state result) := by
  unfold keepResult
  split
  · rename_i fresh
    obtain ⟨isAsked, isNew⟩ := Bool.and_eq_true_iff.mp fresh
    have asked : result.resultId ∈ expected := List.contains_iff_mem.mp isAsked
    have new : result.resultId ∉ state.2 := by simpa using isNew
    constructor
    · rw [List.map_append, kept.names, List.map_singleton, fillResult]
      split <;> rfl
    · change (state.2 ++ [result.resultId]).Nodup
      rw [← List.concat_eq_append]
      exact kept.distinct.concat new
    · exact Lists.forall_mem_concat.mpr ⟨kept.asked, asked⟩
    · rw [List.map_append]
      exact Lists.forall_mem_concat.mpr ⟨fun id old => List.mem_append_left _ (kept.given id old),
        mem_append_right _ mem_cons_self⟩
    · refine Lists.forall_mem_concat.mpr ⟨fun other old inExpected => ?_, fun _ => ?_⟩
      · exact List.mem_append_left _ (kept.answered other old inExpected)
      · exact mem_append_right _ mem_cons_self
    · exact Lists.forall_mem_concat.mpr ⟨kept.spoken, blank_fillResult result⟩
    · intro tools
      obtain ⟨earlier, last⟩ := Lists.forall_mem_concat.mp tools
      refine Lists.forall_mem_concat.mpr ⟨kept.tools earlier, ?_⟩
      unfold fillResult
      split <;> exact last
  · rename_i stale
    refine ⟨kept.names, kept.distinct, kept.asked, fun id old => ?_, ?_, kept.spoken, ?_⟩
    · rw [List.map_append]
      exact List.mem_append_left _ (kept.given id old)
    · refine Lists.forall_mem_concat.mpr ⟨kept.answered, fun inExpected => ?_⟩
      by_contra new
      refine stale (Bool.and_eq_true_iff.mpr ⟨List.contains_iff_mem.mpr inExpected, ?_⟩)
      simpa using new
    · exact fun tools => kept.tools (Lists.forall_mem_concat.mp tools).1

theorem kept_foldl (expected : List String) (results : List RequestMsg) :
    Kept expected results (results.foldl (keepResult expected) ([], [])) := by
  induction results using List.reverseRecOn with
  | nil => exact ⟨rfl, .nil, nofun, nofun, nofun, nofun, nofun⟩
  | append_singleton results result ih =>
    rw [List.foldl_append]
    exact ih.step result

/-- A call name that a message repeats is answered by the results. -/
def RepeatsAnswered (ids : List String) (results : List RequestMsg) : Prop :=
  ∀ id ∈ ids, 1 < ids.count id → id ∈ results.map resultId

theorem reconcile_map_resultId (expected : List String) (results : List RequestMsg) :
    (reconcile expected results).map resultId =
      (results.foldl (keepResult expected) ([], [])).2 ++
        expected.filter fun id =>
          !(results.foldl (keepResult expected) ([], [])).2.contains id := by
  rw [reconcile, List.map_append, (kept_foldl expected results).names, List.map_map]
  congr 1
  exact List.map_id _

theorem answers_reconcile (repeats : RepeatsAnswered expected results) :
    Answers expected (reconcile expected results) := by
  have kept := kept_foldl expected results
  have names := reconcile_map_resultId expected results
  generalize results.foldl (keepResult expected) ([], []) = state at kept names
  constructor
  · rw [names]
    refine List.nodup_append.mpr ⟨kept.distinct, ?_, ?_⟩
    · refine List.nodup_iff_count_le_one.mpr fun id => ?_
      by_contra several
      have twice := Nat.lt_of_not_le several
      obtain ⟨member, missing⟩ := List.mem_filter.mp
        (List.count_pos_iff.mp (Nat.zero_lt_of_lt twice))
      rw [List.count_filter (p := fun id => !state.2.contains id) missing] at twice
      obtain ⟨result, given, rfl⟩ := List.mem_map.mp (repeats id member twice)
      simp [kept.answered result given member] at missing
    · rintro id member _ filtered rfl
      simp [member] at filtered
  · intro id
    rw [names, mem_append, List.mem_filter]
    constructor
    · rintro (member | ⟨member, _⟩)
      · exact kept.asked id member
      · exact member
    · intro member
      by_cases answered : id ∈ state.2
      · exact .inl answered
      · exact .inr ⟨member, by simpa using answered⟩
  · intro result member
    rcases mem_append.mp member with old | synthetic
    · exact (kept_foldl expected results).spoken result old
    · obtain ⟨id, _, rfl⟩ := List.mem_map.mp synthetic
      change blank missingResult = false
      decide +kernel

/-- Results with one for each name leave no repeated name without an answer. -/
theorem repeatsAnswered_of_distinct
    (distinct : ((reconcile expected results).map resultId).Nodup) :
    RepeatsAnswered expected results := by
  intro id member twice
  have kept := kept_foldl expected results
  rw [reconcile_map_resultId] at distinct
  generalize results.foldl (keepResult expected) ([], []) = state at kept distinct
  by_contra missing
  have unanswered : (!state.2.contains id) = true := by
    simpa using fun old => missing (kept.given id old)
  have once := List.nodup_iff_count_le_one.mp (List.nodup_append.mp distinct).2.1 id
  rw [List.count_filter (p := fun id => !state.2.contains id) unanswered] at once
  exact absurd once (Nat.not_le_of_lt twice)

/-- Kept and synthetic results are tool results. -/
theorem isTool_of_mem_reconcile (tools : ∀ result ∈ results, result.isTool = true)
    (member : result ∈ reconcile expected results) :
    result.isTool = true := by
  rcases mem_append.mp member with old | synthetic
  · exact (kept_foldl expected results).tools tools result old
  · obtain ⟨id, _, rfl⟩ := List.mem_map.mp synthetic
    rfl

theorem isTool_eq_false_of_issuesCalls (issues : message.issuesCalls = true) :
    message.isTool = false := by
  have assistant : message.role = .assistant := by
    simpa using (Bool.and_eq_true_iff.mp issues).1
  rw [isTool, assistant]
  rfl

open RequestMsg (role content isText issuesCalls)

theorem isText_eq_false_of_ne_user (other : message.role ≠ .user) : message.isText = false := by
  rw [isText, decide_eq_false other, Bool.false_and]

theorem role_ne_user_of_mem_exchange (issues : caller.issuesCalls = true)
    (tools : ∀ result ∈ results, result.isTool = true) (member : message ∈ caller :: results) :
    message.role ≠ .user := by
  intro user
  rcases List.mem_cons.mp member with rfl | inResults
  · rw [issuesCalls, user] at issues
    cases issues
  · have isTool := tools message inResults
    rw [RequestMsg.isTool, user] at isTool
    cases isTool

theorem isText_eq_false_of_mem_exchange (issues : caller.issuesCalls = true)
    (tools : ∀ result ∈ results, result.isTool = true) (member : message ∈ caller :: results) :
    message.isText = false :=
  isText_eq_false_of_ne_user (role_ne_user_of_mem_exchange issues tools member)

/-- A block that starts with no tool result ends the run of results before it. -/
theorem takeWhile_append_of_head {later block : List RequestMsg}
    (ends : ∀ first ∈ block.head?, first.isTool = false) :
    (later ++ block).takeWhile isTool = later.takeWhile isTool := by
  rw [List.takeWhile_append]
  split
  · next whole =>
      have stops : block.takeWhile isTool = [] := by
        cases block with
        | nil => rfl
        | cons first block => exact List.takeWhile_cons_of_neg (by rw [ends first rfl]; decide)
      have same : later.takeWhile isTool = later := (List.takeWhile_prefix _).eq_of_length whole
      rw [stops, List.append_nil, same]
  · rfl

theorem isTool_eq_false_of_isSpeech (plain : message.isSpeech = true) : message.isTool = false := by
  rw [isTool, decide_eq_false]
  intro tool
  rw [isSpeech, RequestMsg.isReply, tool] at plain
  cases plain

theorem issuesCalls_eq_false_of_isSpeech (plain : message.isSpeech = true) :
    message.issuesCalls = false := by
  rw [← Bool.not_eq_true]
  intro issues
  obtain ⟨assistant, calls⟩ := Bool.and_eq_true_iff.mp issues
  have silent : message.toolCalls.isEmpty = false := by rwa [Bool.not_eq_true'] at calls
  rw [isSpeech, RequestMsg.isReply, of_decide_eq_true assistant, silent] at plain
  cases plain

namespace Formed

/-- Formed blocks compose where they fit. -/
theorem append (formed : Formed out) (next : Formed block)
    (apart : ∀ last ∈ out.getLast?, ∀ first ∈ block.head?, Apart last first) :
    Formed (out ++ block) where
  answered := by
    intro earlier caller later parted issues
    rcases List.append_eq_append_iff.mp parted with
      ⟨more, rfl, inBlock⟩ | ⟨more, rfl, rest⟩
    · exact next.answered more caller later inBlock issues
    · cases more with
      | nil => exact next.answered [] caller later rest.symm issues
      | cons first more =>
        rw [List.cons_append] at rest
        obtain ⟨rfl, rfl⟩ := List.cons.inj rest
        rw [takeWhile_append_of_head next.headed]
        exact formed.answered earlier caller more rfl issues
  headed := by
    intro first member
    cases out with
    | nil => exact next.headed first member
    | cons head rest => exact formed.headed first member
  placed := by
    refine List.isChain_append.mpr ⟨formed.placed, next.placed, ?_⟩
    intro last _ first member isTool
    rw [next.headed first member] at isTool
    cases isTool
  spoken := List.forall_mem_append.mpr ⟨formed.spoken, next.spoken⟩
  apart := List.isChain_append.mpr ⟨formed.apart, next.apart, apart⟩

theorem nil : Formed [] where
  answered earlier caller later parted := by simp at parted
  headed := nofun
  placed := .nil
  spoken := nofun
  apart := .nil

theorem single (notTool : message.isTool = false) (silent : message.issuesCalls = false)
    (spoken : message.isSpeech = true → blank message.content = false) :
    Formed [message] where
  answered := by
    intro earlier caller later parted issues
    rcases List.singleton_eq_append_iff.mp parted with ⟨rfl, same⟩ | ⟨_, same⟩
    · obtain ⟨rfl, rfl⟩ := List.cons.inj same
      rw [silent] at issues
      cases issues
    · cases same
  headed first member := by
    cases member
    exact notTool
  placed := .singleton _
  spoken other member := by
    rw [List.mem_singleton.mp member]
    exact spoken
  apart := .singleton _

/-- A message with calls and the results that answer them. -/
theorem exchange (issues : caller.issuesCalls = true)
    (tools : ∀ result ∈ results, result.isTool = true) (answers : Answers caller.callIds results) :
    Formed (caller :: results) where
  answered := by
    intro earlier other later parted otherIssues
    cases earlier with
    | nil =>
      obtain ⟨rfl, rfl⟩ := List.cons.inj parted
      rw [List.takeWhile_eq_self_iff.mpr tools]
      exact answers
    | cons first earlier =>
      have member : other ∈ results := by
        rw [(List.cons.inj parted).2]
        exact mem_append_right _ mem_cons_self
      have notTool := isTool_eq_false_of_issuesCalls otherIssues
      rw [tools other member] at notTool
      cases notTool
  headed first member := by
    cases member
    exact isTool_eq_false_of_issuesCalls issues
  placed := by
    refine List.isChain_cons.mpr ⟨fun _ _ _ => .inr issues, ?_⟩
    exact (List.pairwise_of_forall_mem_list fun result member _ _ _ =>
      .inl (tools result member)).isChain
  spoken := by
    intro message member plain
    rcases List.mem_cons.mp member with rfl | inResults
    · rw [issuesCalls_eq_false_of_isSpeech plain] at issues
      cases issues
    · have isTool := tools message inResults
      rw [isTool_eq_false_of_isSpeech plain] at isTool
      cases isTool
  apart := by
    refine (List.pairwise_of_forall_mem_list fun message member _ _ => ?_).isChain
    rintro ⟨text, _⟩
    rw [isText_eq_false_of_mem_exchange issues tools member] at text
    cases text

/-- What follows a boundary is formed. -/
theorem suffix (formed : Formed (front ++ rest))
    (headed : ∀ first ∈ rest.head?, first.isTool = false) :
    Formed rest where
  answered := by
    rintro earlier caller later rfl
    exact formed.answered (front ++ earlier) caller later (append_assoc _ _ _).symm
  headed := headed
  placed := formed.placed.suffix (List.suffix_append _ _)
  spoken message member := formed.spoken message (mem_append_right _ member)
  apart := formed.apart.suffix (List.suffix_append _ _)

/-- What precedes a message that is no tool result is formed. -/
theorem initial {last : RequestMsg} (formed : Formed (out ++ [last]))
    (notTool : last.isTool = false) :
    Formed out where
  answered := by
    rintro earlier caller later rfl issues
    have answers := formed.answered earlier caller (later ++ [last])
      (by rw [append_assoc, List.cons_append]) issues
    rwa [takeWhile_append_of_head (by rintro _ ⟨⟩; exact notTool)] at answers
  headed := by
    intro first member
    refine formed.headed first ?_
    rw [List.head?_append, Option.mem_def.mp member]
    rfl
  placed := (List.isChain_append.mp formed.placed).1
  spoken message member := formed.spoken message (List.mem_append_left _ member)
  apart := (List.isChain_append.mp formed.apart).1

end Formed

theorem role_of_isText (text : message.isText = true) : message.role = .user := by
  simpa using (Bool.and_eq_true_iff.mp text).1

theorem isSpeech_of_user (user : message.role = .user) : message.isSpeech = true := by
  rw [isSpeech, user]
  rfl

/-- An assistant that calls no tool speaks plainly. -/
theorem isSpeech_of_assistant (assistant : message.role = .assistant)
    (silent : message.issuesCalls = false) :
    message.isSpeech = true := by
  rw [issuesCalls, assistant] at silent
  rw [isSpeech, RequestMsg.isReply, assistant]
  simpa using silent

theorem pushPlain_formed (formed : Formed out) (plain : message.isSpeech = true) :
    Formed (pushPlain out message) := by
  unfold pushPlain
  split
  · exact formed
  · next spoken =>
      have notTool := isTool_eq_false_of_isSpeech plain
      have alone : Formed [message] :=
        .single notTool (issuesCalls_eq_false_of_isSpeech plain) fun _ =>
          Bool.eq_false_of_not_eq_true spoken
      split
      · next empty =>
          rw [List.getLast?_eq_none_iff.mp empty]
          exact alone
      · rename_i last ends
        obtain ⟨before, rfl⟩ := List.getLast?_eq_some_iff.mp ends
        split
        · next texts =>
            have lastUser := role_of_isText (Bool.and_eq_true_iff.mp texts).2
            have lastPlain := isSpeech_of_user lastUser
            have lastNotTool := isTool_eq_false_of_isSpeech lastPlain
            have lastSpoken := formed.spoken last (mem_append_right _ mem_cons_self) lastPlain
            rw [List.dropLast_concat]
            refine (formed.initial lastNotTool).append
              (.single lastNotTool (issuesCalls_eq_false_of_isSpeech lastPlain)
                fun _ => blank_joined lastSpoken message.content) ?_
            rintro final atEnd _ ⟨⟩
            exact (List.isChain_append.mp formed.apart).2.2 final atEnd last rfl
        · next apart =>
            refine formed.append alone ?_
            intro final atEnd first atHead texts
            obtain rfl := Option.some.inj (ends.symm.trans (Option.mem_def.mp atEnd))
            obtain rfl := Option.some.inj (Option.mem_def.mp atHead)
            exact apart (Bool.and_eq_true_iff.mpr texts.symm)

theorem isTool_of_mem_run (member : result ∈ rest.takeWhile isTool) : result.isTool = true :=
  List.mem_takeWhile_imp member

theorem repairLoop_formed (formed : Formed out)
    (repeats : ∀ earlier caller later, messages = earlier ++ caller :: later →
      caller.issuesCalls = true →
      RepeatsAnswered caller.callIds (later.takeWhile isTool)) :
    Formed (repairLoop messages out) := by
  fun_induction repairLoop messages out with
  | case1 out => exact formed
  | case2 out message rest issues ih =>
    have tools (result : RequestMsg) (member : result ∈ reconcile message.callIds
        (rest.takeWhile isTool)) : result.isTool = true :=
      isTool_of_mem_reconcile (fun _ => isTool_of_mem_run) member
    have answers := answers_reconcile (repeats [] message rest rfl issues)
    refine ih (formed.append (.exchange issues tools answers) ?_) ?_
    · rintro last _ _ ⟨⟩ ⟨_, text⟩
      rw [isText_eq_false_of_mem_exchange issues tools mem_cons_self] at text
      cases text
    · intro earlier caller later parted
      refine repeats (message :: rest.takeWhile isTool ++ earlier) caller later ?_
      rw [append_assoc, ← parted, List.cons_append, List.takeWhile_append_dropWhile]
  | case3 out message rest silent tool ih =>
    exact ih formed fun earlier caller later parted =>
      repeats (message :: earlier) caller later (congrArg (message :: ·) parted)
  | case4 out message rest silent assistant ih =>
    have quiet := Bool.eq_false_of_not_eq_true silent
    exact ih
      (pushPlain_formed formed (isSpeech_of_assistant assistant quiet))
      fun earlier caller later parted =>
        repeats (message :: earlier) caller later (congrArg (message :: ·) parted)
  | case5 out message rest silent user ih =>
    exact ih
      (pushPlain_formed formed (isSpeech_of_user user))
      fun earlier caller later parted =>
        repeats (message :: earlier) caller later (congrArg (message :: ·) parted)
  | case6 out message rest silent name other ih =>
    have alone : Formed [message] := by
      refine .single ?_ (Bool.eq_false_of_not_eq_true silent) ?_
      · rw [isTool, other]
        rfl
      · intro plain
        rw [isSpeech, RequestMsg.isReply, other] at plain
        cases plain
    refine ih (formed.append alone ?_) fun earlier caller later parted =>
      repeats (message :: earlier) caller later (congrArg (message :: ·) parted)
    rintro last _ _ ⟨⟩ ⟨_, text⟩
    rw [role_of_isText text] at other
    cases other

/-- A message that the pass does not drop outside a run of results. -/
def survives (message : RequestMsg) : Bool :=
  message.issuesCalls ||
    match message.role with
    | .tool => false
    | .assistant => !blank message.content
    | .user => !blank message.content
    | .other _ => true

/-- The role that a sequence starts with. -/
def opener (messages : List RequestMsg) : Option Role :=
  messages.head?.map role

theorem opener_append (first second : List RequestMsg) :
    opener (first ++ second) = (opener first).or (opener second) := by
  cases first <;> rfl

theorem opener_pushPlain (out : List RequestMsg) (message : RequestMsg) :
    opener (pushPlain out message) =
      (opener out).or (if blank message.content then none else some message.role) := by
  unfold pushPlain
  split
  · rw [Option.or_none]
  · split
    · rw [opener_append]
      rfl
    · rename_i last ends
      obtain ⟨before, rfl⟩ := List.getLast?_eq_some_iff.mp ends
      split
      · rw [List.dropLast_concat, opener_append, opener_append, Option.or_assoc]
        rfl
      · rw [opener_append]
        rfl

theorem opener_or_find?_of_plain (rest out : List RequestMsg)
    (plain : survives message = !blank message.content) :
    (opener (pushPlain out message)).or ((rest.find? survives).map role) =
      (opener out).or (((message :: rest).find? survives).map role) := by
  rw [opener_pushPlain, Option.or_assoc, List.find?_cons, plain]
  cases blank message.content <;> rfl

/-- The pass starts with what is put out already, or with the first message that
survives. -/
theorem opener_repairLoop (messages out : List RequestMsg) :
    opener (repairLoop messages out) = (opener out).or ((messages.find? survives).map role) := by
  fun_induction repairLoop messages out with
  | case1 out => rw [List.find?_nil, Option.map_none, Option.or_none]
  | case2 out message rest issues ih =>
    rw [ih, opener_append,
      List.find?_cons_of_pos (by rw [survives, issues, Bool.true_or]), Option.or_assoc]
    rfl
  | case3 out message rest silent tool ih =>
    rw [ih, List.find?_cons_of_neg]
    rw [survives, tool, Bool.or_false]
    exact silent
  | case4 out message rest silent assistant ih =>
    rw [ih, opener_or_find?_of_plain]
    rw [survives, assistant, Bool.eq_false_of_not_eq_true silent, Bool.false_or]
  | case5 out message rest silent user ih =>
    rw [ih, opener_or_find?_of_plain]
    rw [survives, user, Bool.eq_false_of_not_eq_true silent, Bool.false_or]
  | case6 out message rest silent name other ih =>
    rw [ih, opener_append, Option.or_assoc,
      List.find?_cons_of_pos (by rw [survives, other, Bool.or_true])]
    rfl

theorem isTool_eq_false_of_survives (stays : survives message = true) :
    message.isTool = false := by
  rw [isTool, decide_eq_false]
  intro tool
  simp [survives, issuesCalls, tool] at stays

theorem headed_repairLoop (messages : List RequestMsg) :
    ∀ first ∈ (repairLoop messages []).head?, first.isTool = false := by
  intro first member
  have role : opener (repairLoop messages []) = some first.role :=
    congrArg (Option.map RequestMsg.role) member
  rw [opener_repairLoop] at role
  obtain ⟨source, found, same⟩ := Option.map_eq_some_iff.mp role
  rw [isTool, ← same]
  exact isTool_eq_false_of_survives (List.find?_some found)

/-- Messages behind an end that is no text of the user are put out as if nothing stood before. -/
theorem pushPlain_append
    (ends : ∀ last ∈ front.getLast?, last.isText = false) :
    pushPlain (front ++ out) message = front ++ pushPlain out message := by
  unfold pushPlain
  split
  · rfl
  rcases List.eq_nil_or_concat out with rfl | ⟨before, last, rfl⟩
  · rw [List.append_nil]
    cases final : front.getLast? with
    | none => rfl
    | some last =>
      dsimp only
      rw [ends last final, Bool.and_false, if_neg Bool.false_ne_true]
      rfl
  · simp only [List.concat_eq_append, ← append_assoc, List.getLast?_concat, List.dropLast_concat]
    split <;> simp only [append_assoc]

theorem repairLoop_append
    (ends : ∀ last ∈ front.getLast?, last.isText = false) :
    repairLoop messages (front ++ out) = front ++ repairLoop messages out := by
  fun_induction repairLoop messages out with
  | case1 out => rw [repairLoop]
  | case2 out message rest issues ih => rw [repairLoop, if_pos issues, append_assoc, ih]
  | case3 out message rest silent tool ih => rw [repairLoop, if_neg silent, tool, ih]
  | case4 out message rest silent assistant ih =>
    rw [repairLoop, if_neg silent, assistant, pushPlain_append ends, ih]
  | case5 out message rest silent user ih =>
    rw [repairLoop, if_neg silent, user, pushPlain_append ends, ih]
  | case6 out message rest silent name other ih =>
    rw [repairLoop, if_neg silent, other, append_assoc, ih]

/-- The results behind a message with calls are put out right after it. -/
theorem repairLoop_exchange
    (parted : messages = earlier ++ caller :: later)
    (issues : caller.issuesCalls = true) :
    ∃ before after, repairLoop messages out =
        before ++ caller :: (reconcile caller.callIds (later.takeWhile isTool) ++ after) ∧
      ∀ first ∈ after.head?, first.isTool = false := by
  have skipped {message : RequestMsg} {rest earlier : List RequestMsg}
      (silent : ¬ message.issuesCalls = true)
      (parted : message :: rest = earlier ++ caller :: later) :
      ∃ earlier, rest = earlier ++ caller :: later := by
    cases earlier with
    | nil =>
      obtain ⟨rfl, _⟩ := List.cons.inj parted
      exact absurd issues silent
    | cons _ earlier => exact ⟨earlier, (List.cons.inj parted).2⟩
  fun_induction repairLoop messages out generalizing earlier with
  | case1 out => simp at parted
  | case2 out message rest issues' ih =>
    cases earlier with
    | nil =>
      obtain ⟨rfl, rfl⟩ := List.cons.inj parted
      refine ⟨out, repairLoop (rest.dropWhile isTool) [], ?_, headed_repairLoop _⟩
      rw [← List.append_nil (out ++ _), repairLoop_append, append_assoc, List.cons_append]
      intro last atEnd
      rw [List.getLast?_append_of_ne_nil _ (List.cons_ne_nil _ _)] at atEnd
      exact isText_eq_false_of_mem_exchange issues (fun _ =>
        isTool_of_mem_reconcile fun _ => isTool_of_mem_run) (List.mem_of_getLast? atEnd)
    | cons first earlier =>
      rw [List.cons_append] at parted
      obtain ⟨rfl, rfl⟩ := List.cons.inj parted
      refine @ih (earlier.dropWhile isTool) ?_
      rw [List.dropWhile_append]
      split
      · rename_i all
        rw [List.dropWhile_cons_of_neg (by rw [isTool_eq_false_of_issuesCalls issues]; decide)]
        simp_all
      · rfl
  | case3 out message rest silent tool ih =>
    obtain ⟨earlier, parted⟩ := skipped silent parted
    exact ih parted
  | case4 out message rest silent assistant ih =>
    obtain ⟨earlier, parted⟩ := skipped silent parted
    exact ih parted
  | case5 out message rest silent user ih =>
    obtain ⟨earlier, parted⟩ := skipped silent parted
    exact ih parted
  | case6 out message rest silent name other ih =>
    obtain ⟨earlier, parted⟩ := skipped silent parted
    exact ih parted

theorem foldl_keepResult (asked : ∀ result ∈ results, result.resultId ∈ expected)
    (spoken : ∀ result ∈ results, blank result.content = false) (kept : List RequestMsg)
    (distinct : (answered ++ results.map resultId).Nodup) :
    results.foldl (keepResult expected) (kept, answered) =
      (kept ++ results, answered ++ results.map resultId) := by
  induction results generalizing kept answered with
  | nil => simp
  | cons result results ih =>
    have new : result.resultId ∉ answered := fun old =>
      (List.nodup_append.mp distinct).2.2 _ old _ mem_cons_self rfl
    have stepped : keepResult expected (kept, answered) result =
        (kept ++ [result], answered ++ [result.resultId]) := by
      rw [keepResult, if_pos, fillResult, spoken result mem_cons_self, if_neg Bool.false_ne_true]
      rw [Bool.and_eq_true, List.contains_iff_mem]
      exact ⟨asked result mem_cons_self, by simpa using new⟩
    rw [List.foldl_cons, stepped, ih
      (fun other member => asked other (List.mem_cons_of_mem _ member))
      (fun other member => spoken other (List.mem_cons_of_mem _ member))]
    · simp
    · simpa using distinct

theorem reconcile_of_answers (answers : Answers ids results) : reconcile ids results = results := by
  have asked (result : RequestMsg) (member : result ∈ results) : result.resultId ∈ ids :=
    (answers.complete _).mp (List.mem_map_of_mem member)
  have nothing : ids.filter (fun id => !(results.map resultId).contains id) = [] := by
    refine List.filter_eq_nil_iff.mpr fun id member => ?_
    have given := List.contains_iff_mem.mpr ((answers.complete id).mpr member)
    rw [given]
    decide
  rw [reconcile, foldl_keepResult asked answers.spoken [] answers.distinct]
  change results ++ (ids.filter _).map syntheticResult = results
  rw [List.nil_append, nothing, List.map_nil, List.append_nil]

theorem pushPlain_of_apart (spoken : blank message.content = false)
    (apart : ∀ last ∈ out.getLast?, Apart last message) :
    pushPlain out message = out ++ [message] := by
  unfold pushPlain
  rw [spoken, if_neg Bool.false_ne_true]
  split
  · rfl
  · next last ends =>
      rw [if_neg]
      intro texts
      exact apart last ends (Bool.and_eq_true_iff.mp texts).symm

/-- What follows a message that calls no tool is formed and fits behind it. -/
theorem Formed.after_single (formed : Formed (message :: rest))
    (silent : message.issuesCalls = false) (out : List RequestMsg) :
    Formed rest ∧ ∀ last ∈ (out ++ [message]).getLast?, ∀ first ∈ rest.head?, Apart last first := by
  constructor
  · refine Formed.suffix (List.singleton_append ▸ formed) fun first member => ?_
    refine Bool.eq_false_of_not_eq_true fun isTool => ?_
    rcases (List.isChain_cons.mp formed.placed).1 first member isTool with after | after
    · rw [formed.headed message rfl] at after
      cases after
    · rw [silent] at after
      cases after
  · intro last atEnd
    rw [List.getLast?_concat] at atEnd
    cases atEnd
    exact (List.isChain_cons.mp formed.apart).1

/-- A formed sequence that fits behind what is put out passes unchanged. -/
theorem repairLoop_of_formed (formed : Formed messages)
    (apart : ∀ last ∈ out.getLast?, ∀ first ∈ messages.head?, Apart last first) :
    repairLoop messages out = out ++ messages := by
  fun_induction repairLoop messages out with
  | case1 out => exact (List.append_nil out).symm
  | case2 out message rest issues ih =>
    have answers := formed.answered [] message rest rfl issues
    have kept := reconcile_of_answers answers
    have parts : message :: rest = (message :: rest.takeWhile isTool) ++ rest.dropWhile isTool := by
      rw [List.cons_append, List.takeWhile_append_dropWhile]
    have headed (first : RequestMsg)
        (member : first ∈ (rest.dropWhile isTool).head?) :
        first.isTool = false := by
      have stops := List.head?_dropWhile_not isTool rest
      rw [Option.mem_def.mp member] at stops
      exact stops
    rw [kept] at ih ⊢
    rw [ih (Formed.suffix (parts ▸ formed) headed) ?_, append_assoc, ← parts]
    -- an exchange ends with a result, or with the caller
    intro last atEnd first _ texts
    rw [List.getLast?_append_of_ne_nil _ (List.cons_ne_nil _ _)] at atEnd
    rw [isText_eq_false_of_mem_exchange issues (fun _ => isTool_of_mem_run)
      (List.mem_of_getLast? atEnd)] at texts
    cases texts.1
  | case3 out message rest silent tool ih =>
    have notTool := formed.headed message rfl
    rw [isTool, tool] at notTool
    cases notTool
  | case4 out message rest silent assistant ih =>
    have quiet := Bool.eq_false_of_not_eq_true silent
    have spoken := formed.spoken message mem_cons_self (isSpeech_of_assistant assistant quiet)
    obtain ⟨restFormed, fits⟩ := formed.after_single quiet out
    rw [pushPlain_of_apart spoken fun last ends => apart last ends message rfl] at ih ⊢
    rw [ih restFormed fits, append_assoc]
    rfl
  | case5 out message rest silent user ih =>
    have spoken := formed.spoken message mem_cons_self (isSpeech_of_user user)
    obtain ⟨restFormed, fits⟩ := formed.after_single
      (issuesCalls_eq_false_of_isSpeech (isSpeech_of_user user)) out
    rw [pushPlain_of_apart spoken fun last ends => apart last ends message rfl] at ih ⊢
    rw [ih restFormed fits, append_assoc]
    rfl
  | case6 out message rest silent name other ih =>
    obtain ⟨restFormed, fits⟩ := formed.after_single (Bool.eq_false_of_not_eq_true silent) out
    rw [ih restFormed fits, append_assoc]
    rfl

theorem trimLeading_of_opening (opening : ∀ first ∈ messages.head?, first.role = .user) :
    trimLeading messages = messages := by
  cases messages with
  | nil => rfl
  | cons first rest =>
    rw [trimLeading, List.findIdx?_cons, decide_eq_true (opening first rfl)]
    rfl

theorem repair_of_formed (formed : Formed messages)
    (opening : ∀ first ∈ messages.head?, first.role = .user) :
    repairMessageSequence messages = messages := by
  have unchanged : repairLoop messages [] = [] ++ messages :=
    repairLoop_of_formed formed (by rintro _ ⟨⟩)
  rw [repairMessageSequence, trimLeading_of_opening opening, unchanged, List.nil_append]

/-- From the first message of the user on, the first message that is not dropped
is one of the user. -/
def Opens (messages : List RequestMsg) : Prop :=
  ∀ first ∈ (trimLeading messages).find? survives, first.role = .user

/-- From the first message of the user on, no message with calls repeats a call
name that the results right after it leave unanswered. -/
def NamesAnswered (messages : List RequestMsg) : Prop :=
  ∀ earlier caller later, trimLeading messages = earlier ++ caller :: later →
    caller.issuesCalls = true →
    RepeatsAnswered caller.callIds (later.takeWhile isTool)

theorem namesAnswered_of_distinct (distinct : ∀ message ∈ messages, message.callIds.Nodup) :
    NamesAnswered messages := by
  intro earlier caller later parted _ id _ twice
  have inTrimmed : caller ∈ trimLeading messages := by
    rw [parted]
    exact mem_append_right _ mem_cons_self
  have member : caller ∈ messages := by
    unfold trimLeading at inTrimmed
    split at inTrimmed
    · exact List.mem_of_mem_drop inTrimmed
    · exact inTrimmed
  exact absurd (List.nodup_iff_count_le_one.mp (distinct caller member) id) (Nat.not_le_of_lt twice)

theorem opening_repair_iff :
    (∀ first ∈ (repairMessageSequence messages).head?, first.role = .user) ↔ Opens messages := by
  have same : (repairMessageSequence messages).head?.map role =
      ((trimLeading messages).find? survives).map role :=
    opener_repairLoop (trimLeading messages) []
  unfold Opens
  generalize (repairMessageSequence messages).head? = left at same ⊢
  generalize (trimLeading messages).find? survives = right at same ⊢
  cases left <;> cases right <;> simp_all

theorem namesAnswered_of_repair (arranged : Arranged (repairMessageSequence messages)) :
    NamesAnswered messages := by
  intro earlier caller later parted issues
  obtain ⟨before, after, put, headed⟩ :=
    @repairLoop_exchange _ _ _ _ [] parted issues
  have answers := arranged.answered before caller _ put issues
  rw [takeWhile_append_of_head headed, List.takeWhile_eq_self_iff.mpr
    fun _ => isTool_of_mem_reconcile fun _ => isTool_of_mem_run] at answers
  exact repeatsAnswered_of_distinct answers.distinct

theorem isSpeech_of_isPlain (plain : message.isPlain = true) : message.isSpeech = true := by
  rcases Bool.or_eq_true_iff.mp plain with text | reply
  · exact isSpeech_of_user (role_of_isText text)
  · rw [isSpeech, reply, Bool.or_true]

/-- A sequence that providers accept is formed if no message of the user is blank. -/
theorem WellFormed.formed (wellFormed : WellFormed messages)
    (spoken : ∀ message ∈ messages, message.role = .user → blank message.content = false) :
    Formed messages where
  toArranged := wellFormed.toArranged
  headed := by
    intro first member
    exact isTool_eq_false_of_isSpeech (isSpeech_of_user (wellFormed.opening first member))
  spoken := by
    intro message member speech
    rcases Bool.or_eq_true_iff.mp speech with user | reply
    · exact spoken message member (of_decide_eq_true user)
    · exact wellFormed.spoken message member (by rw [RequestMsg.isPlain, reply, Bool.or_true])

/--
The pass puts out a well-formed sequence, which a second pass leaves as it is, and leaves a
well-formed sequence as it is, exactly when what it keeps starts with the user, no repeated call
name is left without an answer, and a well-formed sequence has no blank message of the user.
-/
theorem repaired_sequence_well_formed_iff (messages : List RequestMsg) :
    (WellFormed (repairMessageSequence messages) ∧
      repairMessageSequence (repairMessageSequence messages) = repairMessageSequence messages ∧
      (WellFormed messages → repairMessageSequence messages = messages)) ↔
    Opens messages ∧ NamesAnswered messages ∧
      (WellFormed messages → ∀ message ∈ messages, message.role = .user →
        blank message.content = false) := by
  constructor
  · rintro ⟨repaired, _, unchanged⟩
    have named := namesAnswered_of_repair repaired.toArranged
    refine ⟨opening_repair_iff.mp repaired.opening, named, fun wellFormed message member user => ?_⟩
    have formed : Formed (repairMessageSequence messages) := repairLoop_formed .nil named
    rw [unchanged wellFormed] at formed
    exact formed.spoken message member (isSpeech_of_user user)
  · rintro ⟨opens, named, spoken⟩
    have formed : Formed (repairMessageSequence messages) := repairLoop_formed .nil named
    have opening := opening_repair_iff.mpr opens
    refine ⟨⟨formed.toArranged, fun message member plain => ?_, opening⟩,
      repair_of_formed formed opening, fun wellFormed => ?_⟩
    · exact formed.spoken message member (isSpeech_of_isPlain plain)
    · exact repair_of_formed (wellFormed.formed (spoken wellFormed)) wellFormed.opening

def textMsg (role : Role) (text : String) : RequestMsg := ⟨role, text, [], none, false, []⟩

/-- A message of the assistant with calls. -/
def callsMsg (ids : List String) : RequestMsg :=
  ⟨.assistant, "", ids.map fun id => ⟨id, "tool", "args"⟩, none, false, []⟩

def resultMsg (id text : String) : RequestMsg := ⟨.tool, text, [], some id, false, []⟩

/-- A message of the user with an image. -/
def imageMsg (text : String) : RequestMsg :=
  { textMsg .user text with images := [⟨"image/png", "AAAA"⟩] }

/-- A turn that was cut at both ends and suspended in between. -/
def suspendedTurn : List RequestMsg :=
  [textMsg .assistant "stray", textMsg .user "first", textMsg .user "second",
    callsMsg ["a", "b"], resultMsg "b" " ", resultMsg "c" "nobody asked",
    textMsg .assistant " "]

theorem suspendedTurn_repaired :
    repairMessageSequence suspendedTurn =
        [textMsg .user "first\n\nsecond", callsMsg ["a", "b"], resultMsg "b" missingResult,
          resultMsg "a" missingResult] ∧
      WellFormed (repairMessageSequence suspendedTurn) :=
  ⟨by decide +kernel,
    ((repaired_sequence_well_formed_iff suspendedTurn).mpr ⟨by unfold Opens; decide +kernel,
      namesAnswered_of_distinct (by decide +kernel), fun _ => by decide +kernel⟩).1⟩

/-- Without a message of the user, or with a blank one first, the pass starts with
the assistant; a call name that is repeated and never answered gets two results,
of which a second pass drops one; a message with nothing but an image is well formed and is
dropped. -/
theorem repaired_sequences_ill_formed :
    repairMessageSequence [textMsg .assistant "x"] = [textMsg .assistant "x"] ∧
      ¬WellFormed [textMsg .assistant "x"] ∧
      repairMessageSequence [textMsg .user "", textMsg .assistant "x", textMsg .user "y"] =
        [textMsg .assistant "x", textMsg .user "y"] ∧
      repairMessageSequence [textMsg .assistant "x", textMsg .user "y"] = [textMsg .user "y"] ∧
      repairMessageSequence [textMsg .user "q", callsMsg ["a", "a"]] =
        [textMsg .user "q", callsMsg ["a", "a"], resultMsg "a" missingResult,
          resultMsg "a" missingResult] ∧
      repairMessageSequence [textMsg .user "q", callsMsg ["a", "a"], resultMsg "a" missingResult,
          resultMsg "a" missingResult] =
        [textMsg .user "q", callsMsg ["a", "a"], resultMsg "a" missingResult] ∧
      WellFormed [imageMsg ""] ∧ repairMessageSequence [imageMsg ""] = [] := by
  refine ⟨by decide +kernel, ?_, by decide +kernel, by decide +kernel, by decide +kernel,
    by decide +kernel, ⟨⟨?_, .singleton _, .singleton _⟩, by decide, by decide⟩, by decide +kernel⟩
  · intro wellFormed
    exact absurd (wellFormed.opening _ rfl) (by decide)
  · rintro earlier caller later parted issues
    have member : caller ∈ [imageMsg ""] := parted ▸ mem_append_right _ mem_cons_self
    rw [List.mem_singleton.mp member] at issues
    cases issues

theorem users_append_of_others (front : List RequestMsg)
    (others : ∀ message ∈ messages, message.role ≠ .user) :
    users (front ++ messages) = users front := by
  have none : users messages = [] :=
    List.filter_eq_nil_iff.mpr fun message member => by simpa using others message member
  rw [users, List.filter_append, ← users, ← users, none, List.append_nil]

theorem users_concat (user : message.role = .user) (front : List RequestMsg) :
    users (front ++ [message]) = users front ++ [message] := by
  simp [users, user]

theorem users_concat_of_ne (other : message.role ≠ .user) (front : List RequestMsg) :
    users (front ++ [message]) = users front :=
  users_append_of_others front fun _ member => List.mem_singleton.mp member ▸ other

theorem users_trimLeading (messages : List RequestMsg) :
    users (trimLeading messages) = users messages := by
  induction messages with
  | nil => rfl
  | cons first rest ih =>
    by_cases user : first.role = .user
    · rw [trimLeading_of_opening]
      rintro _ ⟨⟩
      exact user
    · have skipped : users (first :: rest) = users rest :=
        List.filter_cons_of_neg (by simpa using user)
      rw [trimLeading, List.findIdx?_cons, decide_eq_false user, skipped, ← ih, trimLeading]
      cases rest.findIdx? fun message => message.role = .user with
      | none => exact skipped
      | some firstUser => rfl

theorem users_pushPlain_of_ne (other : message.role ≠ .user) (out : List RequestMsg) :
    users (pushPlain out message) = users out := by
  have alone := users_concat_of_ne other out
  simp only [pushPlain, isText_eq_false_of_ne_user other, Bool.false_and, Bool.false_eq_true,
    if_false]
  split
  · rfl
  · split <;> exact alone

/-- A message of the user that is not blank is put out, or joined to the last one. -/
theorem merges_pushPlain (merged : Merges past (users out)) (user : message.role = .user)
    (spoken : blank message.content = false) :
    Merges (past ++ [message]) (users (pushPlain out message)) := by
  have pushed : Merges (past ++ [message]) (users (out ++ [message])) := by
    rw [users_concat user]
    exact merged.push
  unfold pushPlain
  rw [spoken, if_neg Bool.false_ne_true]
  split
  · exact pushed
  · rename_i last ends
    obtain ⟨before, rfl⟩ := List.getLast?_eq_some_iff.mp ends
    split
    · rename_i texts
      obtain ⟨text, lastText⟩ := Bool.and_eq_true_iff.mp texts
      have lastUser := role_of_isText lastText
      rw [users_concat lastUser] at merged
      rw [List.dropLast_concat, users_concat (by exact lastUser)]
      exact merged.join text
    · exact pushed

/-- The pass merges the messages of the user as it reads them. -/
theorem merges_repairLoop (merged : Merges (spokenUsers past) (users out)) :
    Merges (spokenUsers (past ++ messages)) (users (repairLoop messages out)) := by
  have passed {message : RequestMsg} (other : message.role ≠ .user) (past : List RequestMsg) :
      spokenUsers (past ++ [message]) = spokenUsers past := by
    rw [spokenUsers, users_concat_of_ne other, spokenUsers]
  fun_induction repairLoop messages out generalizing past with
  | case1 out => rwa [List.append_nil]
  | case2 out message rest issues ih =>
    have exchange : spokenUsers (past ++ message :: rest.takeWhile isTool) = spokenUsers past := by
      rw [spokenUsers, users_append_of_others past, spokenUsers]
      exact fun _ => role_ne_user_of_mem_exchange issues fun _ => isTool_of_mem_run
    rw [← @List.takeWhile_append_dropWhile _ isTool rest, ← List.cons_append,
      ← append_assoc, List.takeWhile_append_dropWhile]
    refine ih ?_
    rw [exchange, users_append_of_others out]
    · exact merged
    · exact fun _ => role_ne_user_of_mem_exchange issues fun _ =>
        isTool_of_mem_reconcile fun _ => isTool_of_mem_run
  | case3 out message rest silent tool ih =>
    rw [List.append_cons]
    refine ih ?_
    rw [passed (by rw [tool]; nofun)]
    exact merged
  | case4 out message rest silent assistant ih =>
    have other : message.role ≠ .user := by
      rw [assistant]
      nofun
    rw [List.append_cons]
    refine ih ?_
    rw [passed other, users_pushPlain_of_ne other]
    exact merged
  | case5 out message rest silent user ih =>
    rw [List.append_cons]
    refine ih ?_
    rw [spokenUsers, users_concat user, List.filter_append, ← spokenUsers]
    cases spoken : blank message.content with
    | true => simpa [pushPlain, spoken] using merged
    | false => simpa [spoken] using merges_pushPlain merged user spoken
  | case6 out message rest silent name other ih =>
    rw [List.append_cons]
    refine ih ?_
    rw [passed (by rw [other]; nofun), users_concat_of_ne (by rw [other]; nofun)]
    exact merged

/-- Merged messages hold the texts in their order, in runs that are joined. -/
theorem Merges.texts (merged : Merges past out) :
    ∃ runs : List (List String), runs.flatten = past.map content ∧
      runs.map (List.foldl joined "") = out.map content := by
  induction merged with
  | nil => exact ⟨[], rfl, rfl⟩
  | @push past out message _ ih =>
    obtain ⟨runs, flat, same⟩ := ih
    exact ⟨runs ++ [[message.content]], by simp [flat], by simp [same, joined]⟩
  | @join past out last message _ _ ih =>
    obtain ⟨runs, flat, same⟩ := ih
    rw [List.map_append] at same
    obtain ⟨front, final, rfl, front_eq, final_eq⟩ := List.map_eq_append_iff.mp same
    obtain ⟨run, rfl, run_eq⟩ := List.map_eq_singleton_iff.mp final_eq
    refine ⟨front ++ [run ++ [message.content]], ?_, ?_⟩
    · rw [List.map_append, ← flat]
      simp
    · simp [front_eq, run_eq]

/-- No image is lost or added in merging: only texts are joined. -/
theorem Merges.images_iff (merged : Merges past out) :
    (∃ kept ∈ out, image ∈ kept.images) ↔ ∃ message ∈ past, image ∈ message.images := by
  induction merged with
  | nil => exact Iff.rfl
  | @push past out latest _ ih => simp [or_and_right, exists_or, ih]
  | @join past out last latest _ text ih =>
    rw [isText, Bool.and_eq_true_iff, List.isEmpty_iff] at text
    simpa [or_and_right, exists_or, text.2] using ih

/-- The texts of the user come out in their order, joined in runs. An image comes out if it is
attached to a message of the user that is not blank, so all come out exactly if each is. -/
theorem user_input_kept_iff (messages : List RequestMsg) :
    (∃ runs : List (List String),
        runs.flatten = (spokenUsers messages).map content ∧
        runs.map (List.foldl joined "") = (users (repairMessageSequence messages)).map content) ∧
      ((∀ message ∈ users messages, ∀ image ∈ message.images,
          ∃ kept ∈ users (repairMessageSequence messages), image ∈ kept.images) ↔
        ∀ message ∈ users messages, ∀ image ∈ message.images,
          ∃ spoken ∈ users messages, blank spoken.content = false ∧ image ∈ spoken.images) := by
  have merged : Merges (spokenUsers messages) (users (repairMessageSequence messages)) := by
    have start : Merges (spokenUsers []) (users []) := .nil
    have passed : Merges (spokenUsers ([] ++ trimLeading messages)) _ := merges_repairLoop start
    rwa [List.nil_append, spokenUsers, users_trimLeading] at passed
  refine ⟨merged.texts, ?_⟩
  simp only [merged.images_iff, spokenUsers, List.mem_filter, Bool.not_eq_true', and_assoc]

theorem user_input_kept_image :
    ∀ message ∈ users [textMsg .user "first", imageMsg "", imageMsg "second"],
      ∀ image ∈ message.images, ∃ kept ∈ users (repairMessageSequence
        [textMsg .user "first", imageMsg "", imageMsg "second"]), image ∈ kept.images :=
  (user_input_kept_iff _).2.mpr (by decide +kernel)

/-- A message with nothing but an image is dropped. -/
theorem blank_message_loses_image :
    repairMessageSequence [textMsg .user "first", imageMsg ""] = [textMsg .user "first"] := by
  decide +kernel

end DaemonNode.Engine
