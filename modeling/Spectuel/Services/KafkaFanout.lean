import Spectuel.Engine.EngineOrchestrator
import Spectuel.Services.BalanceEventHandler

/-!
# The fanout

`KafkaFanout`: it reads the topic of the engines, copies each record into the topic of its category, and
keeps the price of each symbol in Redis.  Commands have a category too, but no topic.

A record is of the category that its first header of that name says; an orchestrator goes by the last
(`scanHeaders`).  A record without a category is skipped.
-/

set_option autoImplicit false

namespace Spectuel

open Exec

/-- The dictionary in the value of a record. -/
inductive Message
  | command (cmd : Command)
  | event (e : Event)

/-- `event["symbol"]` and `event["price"]`, where both are there. -/
def Message.symbolAndPrice : Message → Option (Symbol × ℚ)
  | .event (.trade e) => some (e.symbol, e.price)
  | .event (.order e) => e.price.map fun p ↦ (e.symbol, p)
  | .event (.balance (.askSettled _ _ symbol _ price _ _ _ _ _)) => some (symbol, price)
  | .event (.balance (.bidSettled _ _ symbol _ price _ _ _ _ _)) => some (symbol, price)
  | _ => none

/-- A record of the topic of the engines, with its headers and its value decoded. -/
structure EngineRecord where
  headers : List (String × String)
  value : Message

/-! ## What is sent -/

/-- `put_command` -/
def commandRecord (cmd : Command) (symbol : String) : EngineRecord where
  headers := [("event_category", "command"), ("symbol", symbol)]
  value := .command cmd

/-- `EngineLogger.log_event` with the headers of `log_order_event`, `log_trade_event` and
`log_balance_event`. -/
def eventRecord (userId : Uuid) (category : EventCategory) (e : Event) : EngineRecord where
  headers := [("user_id", toString userId), ("event_category", category.value)]
  value := .event e

/-- What is sent of an event.  The reports of commands are handed to the hook alone. -/
def Event.sent : Event → Option EngineRecord
  | .order e => some (eventRecord e.userId .order (.order e))
  | .trade e => some (eventRecord e.userId .trade (.trade e))
  | .balance e => some (eventRecord e.userId .balance (.balance e))
  | .commandReceived _ => none
  | .commandProcessed _ => none

/-! ## The fanout -/

/-- The topics of the read side. -/
inductive Topic
  | balanceEvents
  | orderEvents
  | instrumentEvents
  deriving DecidableEq

/-- `_CATEGORY_2_TOPIC` -/
def category2Topic (category : String) : Option Topic :=
  if category = EventCategory.balance.value then some .balanceEvents
  else if category = EventCategory.order.value then some .orderEvents
  else if category = EventCategory.trade.value then some .instrumentEvents
  else none

/-- `event_category`: the first header of this name. -/
def EngineRecord.eventCategory (msg : EngineRecord) : Option String := msg.headers.lookup "event_category"

/-- The topic that a record goes to. -/
def EngineRecord.topic? (msg : EngineRecord) : Option Topic := msg.eventCategory.bind category2Topic

/-- `KafkaFanout`: what it has sent, oldest first, and the prices in Redis. -/
structure KafkaFanout where
  topics : Topic → List EngineRecord := fun _ ↦ []
  prices : Symbol → Option ℚ := fun _ ↦ none

/-- A key that the dictionary of a record does not have. -/
inductive KeyError
  | missing
  deriving DecidableEq

abbrev FanoutM := EStateM KeyError KafkaFanout

namespace KafkaFanout

/-- `send_and_wait(topic, msg.value, headers)` -/
def sendAndWait (topic : Topic) (msg : EngineRecord) (f : KafkaFanout) : KafkaFanout :=
  { f with topics := Function.update f.topics topic (f.topics topic ++ [msg]) }

/-- `KafkaFanout._set_price` -/
def setPrice (symbol : Symbol) (price : ℚ) (f : KafkaFanout) : KafkaFanout :=
  { f with prices := Function.update f.prices symbol (some price) }

/-- In the loop: the price of a trade. -/
def takePrice (msg : EngineRecord) : FanoutM Unit :=
  match msg.value.symbolAndPrice with
  | none => throw .missing
  | some (symbol, price) => modify (setPrice symbol price)

/-- The loop of `KafkaFanout.run`. -/
def handleMessage (msg : EngineRecord) : FanoutM Unit :=
  match msg.topic? with
  | none => pure ()
  | some topic => do
    modify (sendAndWait topic msg)
    if msg.eventCategory = some EventCategory.trade.value then takePrice msg else pure ()

/-- `KafkaFanout.run`.  An exception ends the loop. -/
def run (msgs : List EngineRecord) : FanoutM Unit := runSteps handleMessage msgs

end KafkaFanout

/-! ## What the fanout does -/

namespace EngineRecord

/-- The record is a trade's, and there is no price in it. -/
def Spoils (msg : EngineRecord) : Prop :=
  msg.eventCategory = some EventCategory.trade.value ∧ msg.value.symbolAndPrice = none

/-- The price the record has for the symbol. -/
def priceOf (symbol : Symbol) (msg : EngineRecord) : Option ℚ :=
  if msg.eventCategory = some EventCategory.trade.value then
    msg.value.symbolAndPrice.bind fun x ↦ if x.1 = symbol then some x.2 else none
  else none

theorem eventCategory_eventRecord (userId : Uuid) (category : EventCategory) (e : Event) :
    (eventRecord userId category e).eventCategory = some category.value := rfl

theorem topic?_of_trade {msg : EngineRecord} (h : msg.eventCategory = some EventCategory.trade.value) :
    msg.topic? = some .instrumentEvents := by
  rw [topic?, h]
  rfl

end EngineRecord

namespace KafkaFanout

variable {f f' : KafkaFanout} {msg : EngineRecord} {msgs : List EngineRecord}

/-- A record is appended to its topic, and a price in it is the new price of its symbol. -/
structure Takes (f : KafkaFanout) (msgs : List EngineRecord) (f' : KafkaFanout) : Prop where
  topics : ∀ t, f'.topics t = f.topics t ++ msgs.filter fun m ↦ m.topic? = some t
  prices : ∀ s, f'.prices s = (msgs.filterMap (·.priceOf s)).getLast?.or (f.prices s)

theorem Takes.nil : Takes f [] f := ⟨by simp, by simp⟩

theorem Takes.append {f₁ : KafkaFanout} {msgs' : List EngineRecord} (h : Takes f msgs f₁)
    (h' : Takes f₁ msgs' f') : Takes f (msgs ++ msgs') f' := by
  refine ⟨fun t ↦ ?_, fun s ↦ ?_⟩
  · rw [h'.topics, h.topics, List.filter_append, List.append_assoc]
  · rw [h'.prices, h.prices, List.filterMap_append, List.getLast?_append, Option.or_assoc]

/-- A record that does not spoil the loop is taken. -/
theorem handleMessage_takes (hm : ¬ msg.Spoils) :
    ∃ f', Returns (handleMessage msg) f ⟨⟩ f' ∧ Takes f [msg] f' := by
  rw [handleMessage]
  cases ht : msg.topic? with
  | none =>
    have hcat : msg.eventCategory ≠ some EventCategory.trade.value := fun h ↦ by
      rw [EngineRecord.topic?_of_trade h] at ht
      cases ht
    refine ⟨f, rfl, fun t ↦ ?_, fun s ↦ ?_⟩
    · simp [ht]
    · simp [EngineRecord.priceOf, hcat]
  | some t =>
    have htopics : ∀ t', (sendAndWait t msg f).topics t'
        = f.topics t' ++ [msg].filter fun m ↦ m.topic? = some t' := fun t' ↦ by
      rw [sendAndWait]
      by_cases h : t' = t
      · subst h
        simp [ht]
      · simp [ht, Function.update_of_ne h, Ne.symm h]
    by_cases hcat : msg.eventCategory = some EventCategory.trade.value
    · obtain ⟨⟨symbol, price⟩, hprice⟩ : ∃ x, msg.value.symbolAndPrice = some x :=
        Option.ne_none_iff_exists'.1 fun h ↦ hm ⟨hcat, h⟩
      refine ⟨(sendAndWait t msg f).setPrice symbol price, ?_, htopics, fun s ↦ ?_⟩
      · simp [hcat, takePrice, hprice]
      · by_cases h : s = symbol
        · subst h
          simp [setPrice, EngineRecord.priceOf, hcat, hprice]
        · simp [setPrice, sendAndWait, EngineRecord.priceOf, hcat, hprice, Function.update_of_ne h, Ne.symm h]
    · refine ⟨sendAndWait t msg f, ?_, htopics, fun s ↦ ?_⟩
      · simp [hcat]
      · simp [sendAndWait, EngineRecord.priceOf, hcat]

/-- **The fanout takes every record**, where none spoils the loop. -/
theorem run_takes (hm : ∀ m ∈ msgs, ¬ m.Spoils) :
    ∃ f', Returns (run msgs) f ⟨⟩ f' ∧ Takes f msgs f' := by
  induction msgs generalizing f with
  | nil => exact ⟨f, rfl, .nil⟩
  | cons msg msgs ih =>
    obtain ⟨f₁, h₁, ht₁⟩ := handleMessage_takes (f := f) (hm msg List.mem_cons_self)
    obtain ⟨f', h', ht'⟩ := ih (f := f₁) fun m hm' ↦ hm m (List.mem_cons_of_mem _ hm')
    exact ⟨f', returns_runSteps_cons.2 ⟨f₁, h₁, h'⟩, ht₁.append ht'⟩

end KafkaFanout

end Spectuel
