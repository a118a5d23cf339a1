import Ocse.Lib.Fair
import Ocse.Lib.Run
import Ocse.Opening

/-!
# Sessions side by side

Any number of applications open AFUs at the same time. Each has a socket to ocse; the main thread takes the
greeting off it, a thread of ocse's own the requests behind it, until the client has a slot of a card or is
refused. The slots are all that the sessions share. A step is one of ocse for a session, one of its library, or
an application that connects, loses patience or goes away.
-/

namespace Ocse

/-- What ocse knows of a client, from the greeting to the slot. -/
inductive ClientPhase
  | connecting
  | pending (bdf : UInt16)
  | associated (bus : UInt8) (context : ℕ) (bdf : UInt16)
  | refused
  | dropped
  deriving DecidableEq, Repr

/-- A session, with the bytes on their way to ocse and to the library. -/
structure Connection where
  asks : Asks
  lib : LibPhase
  client : ClientPhase
  up : List UInt8
  down : List UInt8
  deriving DecidableEq, Repr

structure Connections where
  cards : List Card
  afuMap : UInt16
  slots : UInt8 → ℕ → Option ℕ
  session : ℕ → Option Connection
  crashed : Bool

inductive SessionOp
  | connect (s : ℕ) (asks : Asks)
  | accept (s : ℕ)
  | serve (s : ℕ)
  | take (s : ℕ)
  | giveUp (s : ℕ)
  | close (s : ℕ)
  | depart (s : ℕ)

/-- The bdf of a client that has not queried an AFU yet. -/
def initialBdf : UInt16 := 0x5001

namespace Connections

def put (x : Connections) (s : ℕ) (c : Connection) : Connections :=
  { x with session := Function.update x.session s (some c) }

def setSlot (x : Connections) (bus : UInt8) (i : ℕ) (owner : Option ℕ) : Connections :=
  { x with slots := Function.update x.slots bus (Function.update (x.slots bus) i owner) }

/-- `_query`, `_find`, `_find_nth` and `_client_associate`, behind the dispatch of `_client_loop`. -/
def serveRequest (x : Connections) (s : ℕ) (c : Connection) (bdf : UInt16) : ClientRequest → Connections
  | .query a =>
    match queried x.cards a with
    | none => { x with crashed := true }
    | some (fcn, afu) => x.put s { c with client := .pending a.bdf, down := c.down ++ queryReply fcn afu }
  | .find name => x.put s { c with down := c.down ++ find (x.cards.map Card.toOclCfg) name }
  | .findNth r => x.put s { c with down := c.down ++ findNth (x.cards.map Card.toOclCfg) r }
  | .associate a =>
    match (findCard x.cards a.bus).bind (fun card => openSlot card.maxClients (x.slots a.bus)) with
    | none => x.put s { c with client := .refused, down := c.down ++ [ocseDetach] }
    | some i =>
      (x.put s { c with client := .associated a.bus i bdf, down := c.down ++ [ocseOpen, UInt8.ofNat i] }).setSlot
        a.bus i (some s)
  | .other => x.put s { c with client := .dropped }

/-- What becomes of the client of a session whose library has gone. -/
def departClient (x : Connections) (s : ℕ) (c : Connection) : Connections :=
  match c.client with
  | .associated bus i _ => (x.put s { c with client := .dropped }).setSlot bus i none
  | _ => x.put s { c with client := .dropped }

def act (x : Connections) : SessionOp → Connections
  | .connect s asks =>
    match x.session s with
    | none => x.put s ⟨asks, .greeting, .connecting, greeting, []⟩
    | some _ => x
  | .accept s =>
    match x.session s with
    | none => x
    | some c =>
      if c.client = .connecting then
        match clientConnect c.up with
        | none => x
        | some (true, stream) =>
          x.put s { c with client := .pending initialBdf, up := stream, down := c.down ++ connectReply x.afuMap }
        | some (false, stream) => x.put s { c with client := .refused, up := stream, down := c.down ++ [ocseDetach] }
      else x
  | .serve s =>
    match x.session s with
    | none => x
    | some c =>
      match c.client with
      | .pending bdf =>
        match clientRequest c.up with
        | none => x
        | some (request, stream) => x.serveRequest s { c with up := stream } bdf request
      | _ => x
  | .take s =>
    match x.session s with
    | none => x
    | some c =>
      match c.lib.take c.asks c.down with
      | none => x
      | some ((lib, sent), stream) => x.put s { c with lib, up := c.up ++ sent, down := stream }
  | .giveUp s =>
    match x.session s with
    | none => x
    | some c => x.put s { c with lib := c.lib.giveUp }
  | .close s =>
    match x.session s with
    | none => x
    | some c => x.put s { c with lib := .closed }
  | .depart s =>
    match x.session s with
    | none => x
    | some c => if c.lib.gone then x.departClient s c else x

def step (x : Connections) (op : SessionOp) : Connections := if x.crashed then x else x.act op

def run (x : Connections) (ops : List SessionOp) : Connections := ops.foldl step x

def init (cards : List Card) (afuMap : UInt16) : Connections where
  cards := cards
  afuMap := afuMap
  slots := fun _ _ => none
  session := fun _ => none
  crashed := false

end Connections

/-! ## What may be asked for -/

/-- A name fits into the buffers at both ends, and an address is that of an AFU. -/
def Asks.Fits (cards : List Card) : Asks → Prop
  | .name chars => 2 ≤ (cString chars).length ∧ (cString chars).length < 25
  | .address a => (queried cards a).isSome

instance (cards : List Card) (asks : Asks) : Decidable (asks.Fits cards) := by
  cases asks <;> unfold Asks.Fits <;> infer_instance

def Connections.Meets (x : Connections) : SessionOp → Prop
  | .connect _ asks => asks.Fits x.cards
  | _ => True

/-- The AFU that an application gets, and its records. -/
structure Target (cards : List Card) (asks : Asks) (a : DeviceAddress) (fcn : FcnCfg) (afu : AfuCfg) : Prop where
  queried : queried cards a = some (fcn, afu)
  asked : ∀ a', asks = .address a' → a = a'
  named : ∀ name, asks = .name name →
    ∃ place, findOcl (cString name) (cards.map Card.toOclCfg) = some place ∧ a = place.address ∧
      afu.named (cString name) = true

/-- Of the name that is asked for there is no AFU. -/
def AskedUnknown (cards : List Card) (asks : Asks) : Prop :=
  ∃ name, asks = .name name ∧ findOcl (cString name) (cards.map Card.toOclCfg) = none

/-! ## One session -/

/-- The steps that take a session further. -/
inductive SessionTurn
  | accept | serve | take
  deriving DecidableEq, Repr

/-- A call under way: how many steps are left at most, and whose step is next. -/
inductive Live (cards : List Card) (afuMap : UInt16) : ℕ → SessionTurn → Connection → Prop
  | hello (asks : Asks) (hfits : asks.Fits cards) :
      Live cards afuMap 11 .accept ⟨asks, .greeting, .connecting, greeting, []⟩
  | welcome (asks : Asks) (hfits : asks.Fits cards) :
      Live cards afuMap 10 .take ⟨asks, .greeting, .pending initialBdf, [], connectReply afuMap⟩
  | mapping (asks : Asks) (hfits : asks.Fits cards) :
      Live cards afuMap 9 .take ⟨asks, .mapping, .pending initialBdf, [], beBytes 2 afuMap.toNat⟩
  | find (name : List UInt8) (hfits : (Asks.name name).Fits cards) :
      Live cards afuMap 8 .serve ⟨.name name, .finding, .pending initialBdf, findMessage name, []⟩
  | found (name : List UInt8) :
      Live cards afuMap 7 .take ⟨.name name, .finding, .pending initialBdf, [],
        Ocse.find (cards.map Card.toOclCfg) (cString name)⟩
  | placing (name : List UInt8) (place : Place)
      (hplace : findOcl (cString name) (cards.map Card.toOclCfg) = some place) :
      Live cards afuMap 6 .take ⟨.name name, .placing, .pending initialBdf, [], place.address.bytes⟩
  | asked (asks : Asks) {a : DeviceAddress} {fcn : FcnCfg} {afu : AfuCfg} (htarget : Target cards asks a fcn afu) :
      Live cards afuMap 5 .serve
        ⟨asks, .opening (.asked a), .pending initialBdf, a.queryMessage ++ a.openMessage, []⟩
  | described (asks : Asks) {a : DeviceAddress} {fcn : FcnCfg} {afu : AfuCfg} (htarget : Target cards asks a fcn afu) :
      Live cards afuMap 4 .serve ⟨asks, .opening (.asked a), .pending a.bdf, a.openMessage, queryReply fcn afu⟩
  | learned (asks : Asks) {a : DeviceAddress} {fcn : FcnCfg} {afu : AfuCfg} (htarget : Target cards asks a fcn afu) :
      Live cards afuMap 3 .serve
        ⟨asks, .opening ((LibHandle.asked a).described fcn afu), .pending a.bdf, a.openMessage, []⟩
  | answered (asks : Asks) {a : DeviceAddress} {fcn : FcnCfg} {afu : AfuCfg} (htarget : Target cards asks a fcn afu)
      (i : ℕ) :
      Live cards afuMap 2 .take ⟨asks, .opening (.asked a), .associated a.bus i a.bdf, [],
        queryReply fcn afu ++ [ocseOpen, UInt8.ofNat i]⟩
  | acked (asks : Asks) {a : DeviceAddress} {fcn : FcnCfg} {afu : AfuCfg} (htarget : Target cards asks a fcn afu)
      (i : ℕ) :
      Live cards afuMap 1 .take ⟨asks, .opening ((LibHandle.asked a).described fcn afu),
        .associated a.bus i a.bdf, [], [ocseOpen, UInt8.ofNat i]⟩
  | turnedDown (asks : Asks) {a : DeviceAddress} {fcn : FcnCfg} {afu : AfuCfg} (htarget : Target cards asks a fcn afu) :
      Live cards afuMap 2 .take ⟨asks, .opening (.asked a), .refused, [], queryReply fcn afu ++ [ocseDetach]⟩
  | refused (asks : Asks) {a : DeviceAddress} {fcn : FcnCfg} {afu : AfuCfg} (htarget : Target cards asks a fcn afu) :
      Live cards afuMap 1 .take ⟨asks, .opening ((LibHandle.asked a).described fcn afu), .refused, [], [ocseDetach]⟩

/-- What ocse still finds on the socket of a library that may have gone. -/
inductive Served (cards : List Card) : ClientPhase → List UInt8 → Prop
  | connecting : Served cards .connecting greeting
  | silent (bdf : UInt16) : Served cards (.pending bdf) []
  | find (bdf : UInt16) (name : List UInt8) (hname : (cString name).length < 25) :
      Served cards (.pending bdf) (findMessage name)
  | query (bdf : UInt16) (a : DeviceAddress) (hqueried : (queried cards a).isSome) :
      Served cards (.pending bdf) (a.queryMessage ++ a.openMessage)
  | associate (a : DeviceAddress) : Served cards (.pending a.bdf) a.openMessage
  | settled {client : ClientPhase} {up : List UInt8} (hconnecting : client ≠ .connecting)
      (hpending : ∀ bdf, client ≠ .pending bdf) : Served cards client up

/-- A session whose call has returned with a handle. -/
structure Connection.OpenedAs (cards : List Card) (c : Connection) (h : LibHandle) : Prop where
  target : ∃ fcn afu, Target cards c.asks h.address fcn afu ∧ h = { h with context := h.context }.described fcn afu
  associated : ∃ i, c.client = .associated h.address.bus i h.address.bdf ∧ h.context = (UInt8.ofNat i).toUInt16
  up : c.up = []
  down : c.down = []

/-- A session whose call has returned, or never will. -/
inductive Settled (cards : List Card) (c : Connection) : Prop
  | opened (h : LibHandle) (hlib : c.lib = .opened h) (hopened : c.OpenedAs cards h)
  | gone (hgone : c.lib.gone = true) (hserved : Served cards c.client c.up)

/-- Further on than with so many steps left. -/
def Further (cards : List Card) (afuMap : UInt16) (n : ℕ) (c : Connection) : Prop :=
  Settled cards c ∨ ∃ m < n, ∃ k, Live cards afuMap m k c

section Steps

variable {cards : List Card} {afuMap : UInt16} {n : ℕ} {k : SessionTurn} {c : Connection}

theorem Live.calling (h : Live cards afuMap n k c) : c.lib.calling = true := by
  cases h <;> rfl

theorem Live.served (h : Live cards afuMap n k c) : Served cards c.client c.up := by
  cases h with
  | hello => exact .connecting
  | welcome => exact .silent _
  | mapping => exact .silent _
  | find name hfits => exact .find _ name hfits.2
  | found => exact .silent _
  | placing => exact .silent _
  | asked asks htarget => exact .query _ _ (by rw [htarget.queried]; rfl)
  | described => exact .associate _
  | learned => exact .associate _
  | answered => exact .settled (fun h => ClientPhase.noConfusion h) (fun _ h => ClientPhase.noConfusion h)
  | acked => exact .settled (fun h => ClientPhase.noConfusion h) (fun _ h => ClientPhase.noConfusion h)
  | turnedDown => exact .settled (fun h => ClientPhase.noConfusion h) (fun _ h => ClientPhase.noConfusion h)
  | refused => exact .settled (fun h => ClientPhase.noConfusion h) (fun _ h => ClientPhase.noConfusion h)

theorem Settled.served (h : Settled cards c) : Served cards c.client c.up := by
  cases h with
  | opened h hlib hopened =>
    obtain ⟨i, hclient, -⟩ := hopened.associated
    rw [hclient]
    exact .settled (fun h => ClientPhase.noConfusion h) (fun _ h => ClientPhase.noConfusion h)
  | gone hgone hserved => exact hserved

/-- A session whose client is not associated is settled because its library has gone. -/
theorem Settled.gone_of (h : Settled cards c) (hclient : ∀ bus i bdf, c.client ≠ .associated bus i bdf) :
    c.lib.gone = true := by
  cases h with
  | opened h hlib hopened =>
    obtain ⟨i, hassociated, -⟩ := hopened.associated
    exact absurd hassociated (hclient _ _ _)
  | gone hgone hserved => exact hgone

theorem Settled.not_calling (h : Settled cards c) : c.lib.calling = false := by
  cases h with
  | opened handle hlib hopened =>
    rw [hlib]
    rfl
  | gone hgone hserved => cases hlib : c.lib <;> rw [hlib] at hgone <;> first | rfl | exact Bool.noConfusion hgone

theorem gone_giveUp {lib : LibPhase} (h : lib.calling = true) : lib.giveUp.gone = true := by
  cases lib <;> first | rfl | exact Bool.noConfusion h

theorem Settled.failed (rc : ℤ) (asks : Asks) (client : ClientPhase) (up down : List UInt8)
    (hserved : Served cards client up) : Settled cards ⟨asks, .failed rc, client, up, down⟩ :=
  .gone rfl hserved

theorem take_queryReply (asks : Asks) (h : LibHandle) (fcn : FcnCfg) (afu : AfuCfg) (rest : List UInt8) :
    (LibPhase.opening h).take asks (queryReply fcn afu ++ rest) =
      some ((.opening (h.described fcn afu), []), rest) := by
  have hquery : (LibPhase.opening h).take asks (queryReply fcn afu ++ rest) =
      (h.takeQuery ((queryReply fcn afu).tail ++ rest)).map (fun r => ((.opening r.1, []), r.2)) := rfl
  rw [hquery, takeQuery_queryReply]
  rfl

theorem take_findReply (asks : Asks) (found : Option Place) :
    LibPhase.finding.take asks (findReply found) =
      some (match found with
        | none => ((.failed ocxlNoDev, []), [])
        | some place => ((.placing, []), place.address.bytes)) := by
  cases found <;> rfl

/-- A call that goes on keeps to the course, and one that fails has a reason. -/
theorem Live.take (hcards : (cards.map (fun card => card.bus)).Nodup) (h : Live cards afuMap n k c)
    {lib : LibPhase} {sent stream : List UInt8} (htake : c.lib.take c.asks c.down = some ((lib, sent), stream)) :
    Further cards afuMap n { c with lib, up := c.up ++ sent, down := stream } ∧
      (lib.gone = true → c.client = .refused ∨ AskedUnknown cards c.asks) := by
  have hgoes {lib : LibPhase} {p : Prop} (h : lib.gone = false) : lib.gone = true → p := by
    rw [h]
    exact Bool.noConfusion
  cases h with
  | hello => cases htake
  | welcome asks hfits =>
    cases htake
    exact ⟨.inr ⟨9, by decide, .take, .mapping asks hfits⟩, hgoes rfl⟩
  | mapping asks hfits =>
    cases asks with
    | name name =>
      cases htake
      exact ⟨.inr ⟨8, by decide, .serve, .find name hfits⟩, hgoes rfl⟩
    | address a =>
      cases htake
      obtain ⟨⟨fcn, afu⟩, hqueried⟩ := Option.isSome_iff_exists.mp hfits
      refine ⟨.inr ⟨5, by decide, .serve, .asked (.address a) ⟨hqueried, ?_, ?_⟩⟩, hgoes rfl⟩
      · intro a' ha
        cases ha
        rfl
      · intro name hname
        cases hname
  | find => cases htake
  | found name =>
    rw [show Ocse.find (cards.map Card.toOclCfg) (cString name) =
      findReply (findOcl (cString name) (cards.map Card.toOclCfg)) from rfl, take_findReply] at htake
    cases hplace : findOcl (cString name) (cards.map Card.toOclCfg) with
    | none =>
      rw [hplace] at htake
      cases htake
      exact ⟨.inl (.failed _ _ _ _ _ (.silent _)), fun _ => .inr ⟨name, rfl, hplace⟩⟩
    | some place =>
      rw [hplace] at htake
      cases htake
      exact ⟨.inr ⟨6, by decide, .take, .placing name place hplace⟩, hgoes rfl⟩
  | placing name place hplace =>
    cases htake
    obtain ⟨fcn, afu, hqueried, hnamed⟩ := queried_of_found hcards hplace
    refine ⟨.inr ⟨5, by decide, .serve, .asked (.name name) (a := place.address) ⟨hqueried, ?_, ?_⟩⟩, hgoes rfl⟩
    · intro a' ha
      cases ha
    · intro name' hname
      cases hname
      exact ⟨place, hplace, rfl, hnamed⟩
  | asked => cases htake
  | @described asks a fcn afu htarget =>
    have hreply := take_queryReply asks (.asked a) fcn afu []
    rw [List.append_nil] at hreply
    rw [hreply] at htake
    cases htake
    exact ⟨.inr ⟨3, by decide, .serve, .learned asks htarget⟩, hgoes rfl⟩
  | learned => cases htake
  | @answered asks a fcn afu htarget i =>
    rw [take_queryReply] at htake
    cases htake
    exact ⟨.inr ⟨1, by decide, .take, .acked asks htarget i⟩, hgoes rfl⟩
  | @acked asks a fcn afu htarget i =>
    have htake' : (LibPhase.opening ((LibHandle.asked a).described fcn afu)).take asks [ocseOpen, UInt8.ofNat i] =
        some ((.opened { (LibHandle.asked a).described fcn afu with context := (UInt8.ofNat i).toUInt16 }, []), []) := rfl
    rw [htake'] at htake
    cases htake
    exact ⟨.inl (.opened _ rfl ⟨⟨fcn, afu, htarget, rfl⟩, ⟨i, rfl, rfl⟩, rfl, rfl⟩), hgoes rfl⟩
  | @turnedDown asks a fcn afu htarget =>
    rw [take_queryReply] at htake
    cases htake
    exact ⟨.inr ⟨1, by decide, .take, .refused asks htarget⟩, hgoes rfl⟩
  | refused =>
    cases htake
    refine ⟨.inl (.failed _ _ _ _ _ (.settled ?_ ?_)), fun _ => .inl rfl⟩
    · exact fun h => ClientPhase.noConfusion h
    · exact fun _ h => ClientPhase.noConfusion h

/-- The library can take its turn. -/
theorem Live.takes (h : Live cards afuMap n .take c) : (c.lib.take c.asks c.down).isSome = true := by
  cases h with
  | welcome => rfl
  | mapping asks => cases asks <;> rfl
  | found name =>
    rw [show Ocse.find (cards.map Card.toOclCfg) (cString name) =
      findReply (findOcl (cString name) (cards.map Card.toOclCfg)) from rfl, take_findReply]
    rfl
  | placing => rfl
  | answered => rw [take_queryReply]; rfl
  | acked => rfl
  | turnedDown => rw [take_queryReply]; rfl
  | refused => rfl

end Steps

/-- The session that a step is about. -/
def SessionOp.of : SessionOp → ℕ
  | .connect s _ | .accept s | .serve s | .take s | .giveUp s | .close s | .depart s => s

/-- The step that a turn is. -/
def SessionTurn.op (s : ℕ) : SessionTurn → SessionOp
  | .accept => .accept s
  | .serve => .serve s
  | .take => .take s

namespace Connections

/-! ## One step -/

/-- A session changes, and the slots with it when it gets one or gives one up. -/
inductive Change (x : Connections) (s : ℕ) (c c' : Connection) (x' : Connections) : Prop
  | put (hx : x' = x.put s c')
      (hsame : ∀ bus i bdf, c'.client = .associated bus i bdf ↔ c.client = .associated bus i bdf)
  | house (bus : UInt8) (i : ℕ) (bdf : UInt16) (card : Card) (hcard : findCard x.cards bus = some card)
      (hi : openSlot card.maxClients (x.slots bus) = some i) (hx : x' = (x.put s c').setSlot bus i (some s))
      (hbefore : ∀ bus i bdf, c.client ≠ .associated bus i bdf) (hafter : c'.client = .associated bus i bdf)
  | depart (bus : UInt8) (i : ℕ) (bdf : UInt16) (hx : x' = (x.put s c').setSlot bus i none)
      (hbefore : c.client = .associated bus i bdf) (hafter : ∀ bus i bdf, c'.client ≠ .associated bus i bdf)

/-- The step of a session under way changes nothing, and is not the one that it waits for, or takes it further. -/
def Advances (x : Connections) (s n : ℕ) (k : SessionTurn) (c : Connection) (op : SessionOp) : Prop :=
  (x.act op = x ∧ op ≠ k.op s) ∨ ∃ c', Change x s c c' (x.act op) ∧ Further x.cards x.afuMap n c'

/-- The step leaves a session settled. -/
def Rests (x : Connections) (s : ℕ) (c : Connection) (op : SessionOp) : Prop :=
  x.act op = x ∨ ∃ c', Change x s c c' (x.act op) ∧ Settled x.cards c'

section Step

variable {x x' : Connections} {s n : ℕ} {k : SessionTurn} {c c' : Connection}

theorem Change.of_client (hx : x' = x.put s c') (hclient : c'.client = c.client) : Change x s c c' x' := by
  refine .put hx (fun bus i bdf => ?_)
  rw [hclient]

/-- A client that has nothing to do with a slot goes on having nothing to do with one. -/
theorem Change.of_unhoused (hx : x' = x.put s c') (hbefore : ∀ bus i bdf, c.client ≠ .associated bus i bdf)
    (hafter : ∀ bus i bdf, c'.client ≠ .associated bus i bdf) : Change x s c c' x' :=
  .put hx (fun bus i bdf => ⟨fun h => absurd h (hafter bus i bdf), fun h => absurd h (hbefore bus i bdf)⟩)

theorem act_take (hc : x.session s = some c) : x.act (.take s) = match c.lib.take c.asks c.down with
    | none => x
    | some ((lib, sent), stream) => x.put s { c with lib, up := c.up ++ sent, down := stream } := by
  simp only [act, hc]

theorem advances_take (hcards : (x.cards.map (fun card => card.bus)).Nodup) (hc : x.session s = some c)
    (h : Live x.cards x.afuMap n k c) : x.Advances s n k c (.take s) := by
  have hact := act_take hc
  cases htake : c.lib.take c.asks c.down with
  | none =>
    rw [htake] at hact
    refine .inl ⟨hact, fun hop => ?_⟩
    cases k with
    | accept => cases hop
    | serve => cases hop
    | take =>
      have htakes := h.takes
      rw [htake] at htakes
      cases htakes
  | some r =>
    obtain ⟨⟨lib, sent⟩, stream⟩ := r
    rw [htake] at hact
    exact .inr ⟨_, .of_client hact rfl, (h.take hcards htake).1⟩

/-- Nothing is read any more once a call has returned. -/
theorem rests_take (hc : x.session s = some c) (h : Settled x.cards c) : x.Rests s c (.take s) := by
  have htake : c.lib.take c.asks c.down = none := by
    cases h with
    | opened h hlib hopened =>
      rw [hlib]
      rfl
    | gone hgone hserved =>
      cases hlib : c.lib <;> rw [hlib] at hgone <;> first | exact Bool.noConfusion hgone | rfl
  refine .inl ?_
  rw [act_take hc, htake]

theorem act_giveUp (hc : x.session s = some c) :
    x.act (.giveUp s) = x.put s { c with lib := c.lib.giveUp } := by
  simp only [act, hc]

theorem advances_giveUp (hc : x.session s = some c) (h : Live x.cards x.afuMap n k c) :
    x.Advances s n k c (.giveUp s) :=
  .inr ⟨_, .of_client (act_giveUp hc) rfl, .inl (.gone (gone_giveUp h.calling) h.served)⟩

theorem rests_giveUp (hc : x.session s = some c) (h : Settled x.cards c) : x.Rests s c (.giveUp s) := by
  have hlib : c.lib.giveUp = c.lib := by
    cases h with
    | opened h hlib hopened =>
      rw [hlib]
      rfl
    | gone hgone hserved =>
      cases hlib : c.lib <;> rw [hlib] at hgone <;> first | exact Bool.noConfusion hgone | rfl
  have hact := act_giveUp hc
  rw [hlib] at hact
  exact .inr ⟨c, .of_client hact rfl, h⟩

theorem act_close (hc : x.session s = some c) : x.act (.close s) = x.put s { c with lib := .closed } := by
  simp only [act, hc]

theorem advances_close (hc : x.session s = some c) (h : Live x.cards x.afuMap n k c) :
    x.Advances s n k c (.close s) :=
  .inr ⟨_, .of_client (act_close hc) rfl, .inl (.gone rfl h.served)⟩

theorem rests_close (hc : x.session s = some c) (h : Settled x.cards c) : x.Rests s c (.close s) := by
  have hserved := h.served
  exact .inr ⟨_, .of_client (act_close hc) rfl, .gone rfl hserved⟩

theorem act_accept (hc : x.session s = some c) (hclient : c.client = .connecting) (hup : c.up = greeting) :
    x.act (.accept s) = x.put s
      { c with client := .pending initialBdf, up := [], down := c.down ++ connectReply x.afuMap } := by
  have hconnect : clientConnect c.up = some (true, []) := by
    rw [hup]
    exact clientConnect_greeting []
  simp only [act, hc, if_pos hclient, hconnect]

theorem act_accept_other (hc : x.session s = some c) (hclient : c.client ≠ .connecting) : x.act (.accept s) = x := by
  simp only [act, hc, if_neg hclient]

theorem advances_accept (hc : x.session s = some c) (h : Live x.cards x.afuMap n k c) :
    x.Advances s n k c (.accept s) := by
  cases h with
  | hello asks hfits =>
    refine .inr ⟨_, .of_unhoused (act_accept hc rfl rfl) ?_ ?_, .inr ⟨10, by decide, .take, .welcome asks hfits⟩⟩
    · exact fun _ _ _ h => ClientPhase.noConfusion h
    · exact fun _ _ _ h => ClientPhase.noConfusion h
  | _ => exact .inl ⟨act_accept_other hc (fun h => ClientPhase.noConfusion h), fun h => SessionOp.noConfusion h⟩

theorem rests_accept (hc : x.session s = some c) (h : Settled x.cards c) : x.Rests s c (.accept s) := by
  by_cases hclient : c.client = .connecting
  · have hup : c.up = greeting := by
      have hserved := h.served
      generalize hup : c.up = up, hconnecting : c.client = client at hserved ⊢
      rw [hconnecting] at hclient
      cases hserved with
      | connecting => rfl
      | settled hnot hpending => exact absurd hclient hnot
      | _ => cases hclient
    have hunhoused : ∀ bus i bdf, c.client ≠ .associated bus i bdf := by
      rw [hclient]
      exact fun _ _ _ h => ClientPhase.noConfusion h
    have hgone := h.gone_of hunhoused
    refine .inr ⟨_, .of_unhoused (act_accept hc hclient hup) hunhoused ?_, .gone hgone (.silent _)⟩
    exact fun _ _ _ h => ClientPhase.noConfusion h
  · exact .inl (act_accept_other hc hclient)

theorem act_serve (hc : x.session s = some c) {bdf : UInt16} (hclient : c.client = .pending bdf)
    {request : ClientRequest} {stream : List UInt8} (hup : clientRequest c.up = some (request, stream)) :
    x.act (.serve s) = x.serveRequest s { c with up := stream } bdf request := by
  simp only [act, hc, hclient, hup]

theorem act_serve_silent (hc : x.session s = some c) (hup : c.up = []) : x.act (.serve s) = x := by
  simp only [act, hc, hup, clientRequest]
  split <;> rfl

theorem act_serve_other (hc : x.session s = some c) (hclient : ∀ bdf, c.client ≠ .pending bdf) :
    x.act (.serve s) = x := by
  simp only [act, hc]

theorem change_query (hc : x.session s = some c) {bdf : UInt16} (hclient : c.client = .pending bdf)
    {a : DeviceAddress} {fcn : FcnCfg} {afu : AfuCfg} (hqueried : queried x.cards a = some (fcn, afu))
    {stream : List UInt8} (hup : c.up = a.queryMessage ++ stream) :
    Change x s c { c with client := .pending a.bdf, up := stream, down := c.down ++ queryReply fcn afu }
      (x.act (.serve s)) := by
  have hrequest : clientRequest c.up = some (.query a, stream) := by
    rw [hup]
    exact clientRequest_query a stream
  refine .of_unhoused ?_ ?_ (fun _ _ _ h => ClientPhase.noConfusion h)
  · rw [act_serve hc hclient hrequest]
    simp only [serveRequest, hqueried]
  · rw [hclient]
    exact fun _ _ _ h => ClientPhase.noConfusion h

theorem change_find (hc : x.session s = some c) {bdf : UInt16} (hclient : c.client = .pending bdf)
    {name : List UInt8} (hname : (cString name).length < 25) (hup : c.up = findMessage name) :
    Change x s c { c with up := [], down := c.down ++ find (x.cards.map Card.toOclCfg) (cString name) }
      (x.act (.serve s)) := by
  have hrequest : clientRequest c.up = some (.find (cString name), []) := by
    have hfind := clientRequest_find hname []
    rw [List.append_nil] at hfind
    rw [hup]
    exact hfind
  refine .of_client ?_ rfl
  rw [act_serve hc hclient hrequest]
  rfl

/-- An open takes the first slot of the card that is not taken, or the client is refused. -/
theorem change_associate (hc : x.session s = some c) {bdf : UInt16} (hclient : c.client = .pending bdf)
    {a : DeviceAddress} (hup : c.up = a.openMessage) :
    ((findCard x.cards a.bus).bind (fun card => openSlot card.maxClients (x.slots a.bus)) = none ∧
      Change x s c { c with client := .refused, up := [], down := c.down ++ [ocseDetach] } (x.act (.serve s))) ∨
      ∃ i, Change x s c
        { c with client := .associated a.bus i bdf, up := [], down := c.down ++ [ocseOpen, UInt8.ofNat i] }
        (x.act (.serve s)) := by
  have hrequest : clientRequest c.up = some (.associate a, []) := by
    rw [hup]
    exact clientRequest_open a []
  have hbefore : ∀ bus i bdf, c.client ≠ .associated bus i bdf := by
    rw [hclient]
    exact fun _ _ _ h => ClientPhase.noConfusion h
  have hact := act_serve hc hclient hrequest
  cases hcard : findCard x.cards a.bus with
  | none =>
    refine .inl ⟨rfl, .of_unhoused ?_ hbefore (fun _ _ _ h => ClientPhase.noConfusion h)⟩
    rw [hact]
    simp only [serveRequest, hcard, Option.bind_none]
  | some card =>
    cases hslot : openSlot card.maxClients (x.slots a.bus) with
    | none =>
      refine .inl ⟨hslot, .of_unhoused ?_ hbefore (fun _ _ _ h => ClientPhase.noConfusion h)⟩
      rw [hact]
      simp only [serveRequest, hcard, Option.bind_some, hslot]
    | some i =>
      refine .inr ⟨i, .house a.bus i bdf card hcard hslot ?_ hbefore rfl⟩
      rw [hact]
      simp only [serveRequest, hcard, Option.bind_some, hslot]

theorem advances_serve (hc : x.session s = some c) (h : Live x.cards x.afuMap n k c) :
    x.Advances s n k c (.serve s) := by
  have hsilent (hup : c.up = []) (hk : k ≠ .serve) : x.Advances s n k c (.serve s) := by
    refine .inl ⟨act_serve_silent hc hup, fun hop => ?_⟩
    cases k with
    | accept => cases hop
    | serve => exact hk rfl
    | take => cases hop
  have hother (hclient : ∀ bdf, c.client ≠ .pending bdf) (hk : k ≠ .serve) : x.Advances s n k c (.serve s) := by
    refine .inl ⟨act_serve_other hc hclient, fun hop => ?_⟩
    cases k with
    | accept => cases hop
    | serve => exact hk rfl
    | take => cases hop
  cases h with
  | hello => exact hother (fun _ h => ClientPhase.noConfusion h) (by decide)
  | welcome => exact hsilent rfl (by decide)
  | mapping => exact hsilent rfl (by decide)
  | find name hfits => exact .inr ⟨_, change_find hc rfl hfits.2 rfl, .inr ⟨7, by decide, .take, .found name⟩⟩
  | found => exact hsilent rfl (by decide)
  | placing => exact hsilent rfl (by decide)
  | asked asks htarget =>
    exact .inr ⟨_, change_query hc rfl htarget.queried rfl, .inr ⟨4, by decide, .serve, .described asks htarget⟩⟩
  | described asks htarget =>
    rcases change_associate hc rfl rfl with ⟨-, hchange⟩ | ⟨i, hchange⟩
    · exact .inr ⟨_, hchange, .inr ⟨2, by decide, .take, .turnedDown asks htarget⟩⟩
    · exact .inr ⟨_, hchange, .inr ⟨2, by decide, .take, .answered asks htarget i⟩⟩
  | learned asks htarget =>
    rcases change_associate hc rfl rfl with ⟨-, hchange⟩ | ⟨i, hchange⟩
    · exact .inr ⟨_, hchange, .inr ⟨1, by decide, .take, .refused asks htarget⟩⟩
    · exact .inr ⟨_, hchange, .inr ⟨1, by decide, .take, .acked asks htarget i⟩⟩
  | answered => exact hother (fun _ h => ClientPhase.noConfusion h) (by decide)
  | acked => exact hother (fun _ h => ClientPhase.noConfusion h) (by decide)
  | turnedDown => exact hother (fun _ h => ClientPhase.noConfusion h) (by decide)
  | refused => exact hother (fun _ h => ClientPhase.noConfusion h) (by decide)

theorem rests_serve (hc : x.session s = some c) (h : Settled x.cards c) : x.Rests s c (.serve s) := by
  by_cases hpending : ∃ bdf, c.client = .pending bdf
  · obtain ⟨bdf, hclient⟩ := hpending
    have hgone : c.lib.gone = true := h.gone_of (by rw [hclient]; exact fun _ _ _ h => ClientPhase.noConfusion h)
    have hserved := h.served
    rw [hclient] at hserved
    generalize hup : c.up = up at hserved
    cases hserved with
    | silent => exact .inl (act_serve_silent hc hup)
    | find bdf name hname => exact .inr ⟨_, change_find hc hclient hname hup, .gone hgone (by rw [hclient]; exact .silent bdf)⟩
    | query bdf a hqueried =>
      obtain ⟨⟨fcn, afu⟩, hsome⟩ := Option.isSome_iff_exists.mp hqueried
      exact .inr ⟨_, change_query hc hclient hsome hup, .gone hgone (.associate a)⟩
    | associate a =>
      rcases change_associate hc hclient hup with ⟨-, hchange⟩ | ⟨i, hchange⟩
      · exact .inr ⟨_, hchange, .gone hgone
          (.settled (fun h => ClientPhase.noConfusion h) (fun _ h => ClientPhase.noConfusion h))⟩
      · exact .inr ⟨_, hchange, .gone hgone
          (.settled (fun h => ClientPhase.noConfusion h) (fun _ h => ClientPhase.noConfusion h))⟩
    | settled hconnecting hnot => exact absurd rfl (hnot bdf)
  · exact .inl (act_serve_other hc (fun bdf h => hpending ⟨bdf, h⟩))

theorem act_depart (hc : x.session s = some c) (hgone : c.lib.gone = true) :
    x.act (.depart s) = x.departClient s c := by
  simp only [act, hc, if_pos hgone]

theorem act_depart_other (hc : x.session s = some c) (hgone : ¬c.lib.gone = true) : x.act (.depart s) = x := by
  simp only [act, hc, if_neg hgone]

theorem advances_depart (hc : x.session s = some c) (h : Live x.cards x.afuMap n k c) :
    x.Advances s n k c (.depart s) := by
  have hcalling := h.calling
  refine .inl ⟨act_depart_other hc (fun hgone => ?_), ?_⟩
  · cases hlib : c.lib <;> rw [hlib] at hgone hcalling <;>
      first | exact Bool.noConfusion hgone | exact Bool.noConfusion hcalling
  · cases k <;> exact fun h => SessionOp.noConfusion h

theorem rests_depart (hc : x.session s = some c) : x.Rests s c (.depart s) := by
  by_cases hgone : c.lib.gone = true
  · have hact := act_depart hc hgone
    have hdropped : Settled x.cards { c with client := .dropped } :=
      .gone hgone (.settled (fun h => ClientPhase.noConfusion h) (fun _ h => ClientPhase.noConfusion h))
    refine .inr ⟨{ c with client := .dropped }, ?_, hdropped⟩
    unfold departClient at hact
    split at hact
    · next bus i bdf hclient => exact .depart bus i bdf hact hclient (fun _ _ _ h => ClientPhase.noConfusion h)
    · next hother => exact .of_unhoused hact hother (fun _ _ _ h => ClientPhase.noConfusion h)
  · exact .inl (act_depart_other hc hgone)

end Step

/-! ## All sessions -/

def Standing (x : Connections) (c : Connection) : Prop :=
  Settled x.cards c ∨ ∃ n k, Live x.cards x.afuMap n k c

/-- A client of this session has the slot. -/
def Houses (x : Connections) (bus : UInt8) (i s : ℕ) : Prop :=
  ∃ c bdf, x.session s = some c ∧ c.client = .associated bus i bdf

structure Inv (x : Connections) : Prop where
  cards : (x.cards.map (fun card => card.bus)).Nodup
  running : x.crashed = false
  standing : ∀ s c, x.session s = some c → x.Standing c
  housed : ∀ bus i s, x.slots bus i = some s ↔ x.Houses bus i s
  room : ∀ bus i s, x.slots bus i = some s → ∃ card, findCard x.cards bus = some card ∧ i < card.maxClients

section Inv

variable {x x' : Connections} {s : ℕ} {c c' : Connection}

theorem openSlot_spec {maxClients : ℕ} {slots : ℕ → Option ℕ} {i : ℕ} (h : openSlot maxClients slots = some i) :
    i < maxClients ∧ slots i = none := by
  constructor
  · exact List.mem_range.mp (List.mem_of_find?_eq_some h)
  · simpa using List.find?_some h

/-- What a change leaves as it is. -/
theorem Change.frame (h : Change x s c c' x') :
    x'.cards = x.cards ∧ x'.afuMap = x.afuMap ∧ x'.crashed = x.crashed ∧
      x'.session = Function.update x.session s (some c') := by
  cases h with
  | put hx hsame => exact hx ▸ ⟨rfl, rfl, rfl, rfl⟩
  | house bus i bdf card hcard hi hx hbefore hafter => exact hx ▸ ⟨rfl, rfl, rfl, rfl⟩
  | depart bus i bdf hx hbefore hafter => exact hx ▸ ⟨rfl, rfl, rfl, rfl⟩

theorem houses_update (hsession : x'.session = Function.update x.session s (some c')) (bus : UInt8) (i t : ℕ) :
    x'.Houses bus i t ↔ (t = s ∧ ∃ bdf, c'.client = .associated bus i bdf) ∨ (t ≠ s ∧ x.Houses bus i t) := by
  unfold Houses
  rw [hsession]
  constructor
  · rintro ⟨d, bdf, hd, hclient⟩
    rcases update_eq_some_iff.mp hd with ⟨ht, hd⟩ | ⟨ht, hd⟩
    · cases hd
      exact .inl ⟨ht, bdf, hclient⟩
    · exact .inr ⟨ht, d, bdf, hd, hclient⟩
  · rintro (⟨ht, bdf, hclient⟩ | ⟨ht, d, bdf, hd, hclient⟩)
    · exact ⟨c', bdf, update_eq_some_iff.mpr (.inl ⟨ht, rfl⟩), hclient⟩
    · exact ⟨d, bdf, update_eq_some_iff.mpr (.inr ⟨ht, hd⟩), hclient⟩

theorem setSlot_slots (x : Connections) (bus : UInt8) (i : ℕ) (owner : Option ℕ) (bus' : UInt8) (i' : ℕ) :
    (x.setSlot bus i owner).slots bus' i' = if bus' = bus ∧ i' = i then owner else x.slots bus' i' := by
  unfold setSlot
  dsimp only
  by_cases hbus : bus' = bus
  · subst hbus
    rw [Function.update_self]
    by_cases hi : i' = i
    · rw [hi, Function.update_self, if_pos ⟨rfl, rfl⟩]
    · rw [Function.update_of_ne hi, if_neg (fun h => hi h.2)]
  · rw [Function.update_of_ne hbus, if_neg (fun h => hbus h.1)]

theorem Change.housed (h : x.Inv) (hc : x.session s = some c) (hchange : Change x s c c' x') (bus : UInt8) (i t : ℕ) :
    x'.slots bus i = some t ↔ x'.Houses bus i t := by
  rw [houses_update hchange.frame.2.2.2]
  have hown (bus : UInt8) (i : ℕ) : x.Houses bus i s ↔ ∃ bdf, c.client = .associated bus i bdf := by
    constructor
    · rintro ⟨d, bdf, hd, hclient⟩
      rw [hc] at hd
      cases hd
      exact ⟨bdf, hclient⟩
    · rintro ⟨bdf, hclient⟩
      exact ⟨c, bdf, hc, hclient⟩
  cases hchange with
  | put hx hsame =>
    rw [hx]
    change x.slots bus i = some t ↔ _
    rw [h.housed]
    by_cases ht : t = s
    · subst ht
      simp only [hown, hsame, true_and, ne_eq, not_true_eq_false, false_and, or_false]
    · simp only [ht, false_and, ne_eq, not_false_eq_true, true_and, false_or]
  | house bus₀ i₀ bdf card hcard hi hx hbefore hafter =>
    have hfree := (openSlot_spec hi).2
    have hnone (bus : UInt8) (i : ℕ) : ¬x.Houses bus i s := by
      rw [hown]
      rintro ⟨bdf, hclient⟩
      exact hbefore bus i bdf hclient
    rw [hx, setSlot_slots]
    change (if bus = bus₀ ∧ i = i₀ then some s else x.slots bus i) = some t ↔ _
    rw [hafter]
    by_cases hplace : bus = bus₀ ∧ i = i₀
    · obtain ⟨rfl, rfl⟩ := hplace
      have hothers : ¬x.Houses bus i t := by
        rw [← h.housed, hfree]
        exact fun h => nomatch h
      rw [if_pos ⟨rfl, rfl⟩]
      constructor
      · intro hst
        exact .inl ⟨(Option.some.inj hst).symm, bdf, rfl⟩
      · rintro (⟨rfl, -⟩ | ⟨-, hhouses⟩)
        · rfl
        · exact absurd hhouses hothers
    · rw [if_neg hplace, h.housed]
      constructor
      · intro hhouses
        refine .inr ⟨?_, hhouses⟩
        rintro rfl
        exact hnone bus i hhouses
      · rintro (⟨-, bdf', hassociated⟩ | ⟨-, hhouses⟩)
        · cases hassociated
          exact absurd ⟨rfl, rfl⟩ hplace
        · exact hhouses
  | depart bus₀ i₀ bdf hx hbefore hafter =>
    have hmine : x.slots bus₀ i₀ = some s := (h.housed ..).mpr ⟨c, bdf, hc, hbefore⟩
    rw [hx, setSlot_slots]
    change (if bus = bus₀ ∧ i = i₀ then none else x.slots bus i) = some t ↔ _
    by_cases hplace : bus = bus₀ ∧ i = i₀
    · obtain ⟨rfl, rfl⟩ := hplace
      rw [if_pos ⟨rfl, rfl⟩]
      constructor
      · intro hnone
        cases hnone
      · rintro (⟨-, bdf', hassociated⟩ | ⟨hne, hhouses⟩)
        · exact absurd hassociated (hafter _ _ _)
        · rw [← h.housed, hmine] at hhouses
          exact absurd (Option.some.inj hhouses).symm hne
    · rw [if_neg hplace, h.housed]
      constructor
      · intro hhouses
        refine .inr ⟨?_, hhouses⟩
        rintro rfl
        obtain ⟨bdf', hclient⟩ := (hown bus i).mp hhouses
        rw [hbefore] at hclient
        cases hclient
        exact hplace ⟨rfl, rfl⟩
      · rintro (⟨-, bdf', hassociated⟩ | ⟨-, hhouses⟩)
        · exact absurd hassociated (hafter _ _ _)
        · exact hhouses

theorem Change.room (h : x.Inv) (hchange : Change x s c c' x') (bus : UInt8) (i t : ℕ)
    (hslot : x'.slots bus i = some t) : ∃ card, findCard x.cards bus = some card ∧ i < card.maxClients := by
  cases hchange with
  | put hx hsame =>
    rw [hx] at hslot
    exact h.room bus i t hslot
  | house bus₀ i₀ bdf card hcard hi hx hbefore hafter =>
    rw [hx, setSlot_slots] at hslot
    split_ifs at hslot with hplace
    · obtain ⟨rfl, rfl⟩ := hplace
      exact ⟨card, hcard, (openSlot_spec hi).1⟩
    · exact h.room bus i t hslot
  | depart bus₀ i₀ bdf hx hbefore hafter =>
    rw [hx, setSlot_slots] at hslot
    split_ifs at hslot with hplace
    exact h.room bus i t hslot

theorem Inv.change (h : x.Inv) (hc : x.session s = some c) (hchange : Change x s c c' x') (hstanding : x.Standing c') :
    x'.Inv := by
  obtain ⟨hcards, hmap, hcrashed, hsession⟩ := hchange.frame
  refine ⟨?_, ?_, ?_, hchange.housed h hc, ?_⟩
  · rw [hcards]
    exact h.cards
  · rw [hcrashed]
    exact h.running
  · intro t d hd
    unfold Standing
    rw [hcards, hmap]
    rw [hsession] at hd
    rcases update_eq_some_iff.mp hd with ⟨-, hd⟩ | ⟨-, hd⟩
    · cases hd
      exact hstanding
    · exact h.standing t d hd
  · intro bus i t hslot
    rw [hcards]
    exact hchange.room h bus i t hslot

/-! ## Whole runs -/

variable {op : SessionOp} {n : ℕ} {k : SessionTurn}

theorem act_of_none (hs : x.session op.of = none) (hconnect : ∀ asks, op ≠ .connect op.of asks) : x.act op = x := by
  cases op with
  | connect s asks => exact absurd rfl (hconnect asks)
  | _ s =>
    change x.session s = none at hs
    simp only [act, hs]

theorem act_connect (asks : Asks) (hs : x.session s = none) :
    x.act (.connect s asks) = x.put s ⟨asks, .greeting, .connecting, greeting, []⟩ := by
  simp only [act, hs]

theorem act_connect_other (asks : Asks) (hc : x.session s = some c) : x.act (.connect s asks) = x := by
  simp only [act, hc]

/-- Whatever a session under way takes part in, it waits or goes further. -/
theorem advances (h : x.Inv) (hc : x.session op.of = some c) (hlive : Live x.cards x.afuMap n k c) :
    x.Advances op.of n k c op := by
  cases op with
  | connect s asks => exact .inl ⟨act_connect_other asks hc, by cases k <;> exact fun h => SessionOp.noConfusion h⟩
  | accept s => exact advances_accept hc hlive
  | serve s => exact advances_serve hc hlive
  | take s => exact advances_take h.cards hc hlive
  | giveUp s => exact advances_giveUp hc hlive
  | close s => exact advances_close hc hlive
  | depart s => exact advances_depart hc hlive

theorem rests (hc : x.session op.of = some c) (hsettled : Settled x.cards c) : x.Rests op.of c op := by
  cases op with
  | connect s asks => exact .inl (act_connect_other asks hc)
  | accept s => exact rests_accept hc hsettled
  | serve s => exact rests_serve hc hsettled
  | take s => exact rests_take hc hsettled
  | giveUp s => exact rests_giveUp hc hsettled
  | close s => exact rests_close hc hsettled
  | depart s => exact rests_depart hc

theorem Standing.of_further {n : ℕ} (h : Further x.cards x.afuMap n c) : x.Standing c :=
  h.imp_right (fun ⟨m, _, k, hlive⟩ => ⟨m, k, hlive⟩)

/-- What a step can do. -/
inductive Effect (x : Connections) (op : SessionOp) : Prop
  | nothing (h : x.act op = x)
  | begins (asks : Asks) (hfits : asks.Fits x.cards) (hs : x.session op.of = none)
      (h : x.act op = x.put op.of ⟨asks, .greeting, .connecting, greeting, []⟩)
  | changes (c c' : Connection) (hc : x.session op.of = some c) (h : Change x op.of c c' (x.act op))
      (hstanding : x.Standing c')

theorem act_effect (h : x.Inv) (hmeets : x.Meets op) : x.Effect op := by
  cases hc : x.session op.of with
  | none =>
    by_cases hconnect : ∃ asks, op = .connect op.of asks
    · obtain ⟨asks, hop⟩ := hconnect
      rw [hop] at hmeets
      exact .begins asks hmeets hc (by rw [hop]; exact act_connect asks hc)
    · exact .nothing (act_of_none hc (fun asks hop => hconnect ⟨asks, hop⟩))
  | some c =>
    rcases h.standing op.of c hc with hsettled | ⟨n, k, hlive⟩
    · rcases rests hc hsettled with hnothing | ⟨c', hchange, hsettled'⟩
      · exact .nothing hnothing
      · exact .changes c c' hc hchange (.inl hsettled')
    · rcases advances h hc hlive with ⟨hnothing, -⟩ | ⟨c', hchange, hfurther⟩
      · exact .nothing hnothing
      · exact .changes c c' hc hchange (.of_further hfurther)

theorem Inv.begin (h : x.Inv) (asks : Asks) (hfits : asks.Fits x.cards) (hs : x.session s = none) :
    (x.put s ⟨asks, .greeting, .connecting, greeting, []⟩).Inv where
  cards := h.cards
  running := h.running
  standing := by
    intro t d hd
    rcases update_eq_some_iff.mp hd with ⟨-, hd⟩ | ⟨-, hd⟩
    · cases hd
      exact .inr ⟨11, .accept, .hello asks hfits⟩
    · exact h.standing t d hd
  housed := by
    intro bus i t
    have hput : (x.put s ⟨asks, .greeting, .connecting, Ocse.greeting, []⟩).session =
      Function.update x.session s (some ⟨asks, .greeting, .connecting, Ocse.greeting, []⟩) := rfl
    refine (h.housed bus i t).trans ?_
    rw [houses_update hput]
    constructor
    · intro hhouses
      refine .inr ⟨?_, hhouses⟩
      rintro rfl
      obtain ⟨d, bdf, hd, -⟩ := hhouses
      rw [hs] at hd
      cases hd
    · rintro (⟨-, bdf, hassociated⟩ | ⟨-, hhouses⟩)
      · cases hassociated
      · exact hhouses
  room := h.room

theorem init_inv {cards : List Card} (afuMap : UInt16) (hcards : (cards.map (fun card => card.bus)).Nodup) :
    (init cards afuMap).Inv where
  cards := hcards
  running := rfl
  standing := fun s c hc => nomatch hc
  housed := by
    intro bus i s
    constructor
    · intro hslot
      cases hslot
    · rintro ⟨c, bdf, hc, -⟩
      cases hc
  room := fun bus i s hslot => nomatch hslot

theorem step_eq_act (h : x.Inv) (op : SessionOp) : x.step op = x.act op := by
  unfold step
  rw [h.running]
  rfl

theorem step_inv (h : x.Inv) (hmeets : x.Meets op) : (x.step op).Inv := by
  rw [step_eq_act h]
  cases act_effect h hmeets with
  | nothing hact =>
    rw [hact]
    exact h
  | begins asks hfits hs hact =>
    rw [hact]
    exact h.begin asks hfits hs
  | changes c c' hc hchange hstanding => exact h.change hc hchange hstanding

theorem run_inv (h : x.Inv) {ops : List SessionOp} (hmeets : Along step Meets x ops) : (x.run ops).Inv :=
  hmeets.invariant Inv (fun _ _ hx hok => step_inv hx hok) h

end Inv

/-! ## What a call returns -/

section Returns

variable {x : Connections} {s n : ℕ} {k : SessionTurn} {c c' : Connection} {op : SessionOp}

theorem step_cards (h : x.Inv) (hmeets : x.Meets op) :
    (x.step op).cards = x.cards ∧ (x.step op).afuMap = x.afuMap := by
  rw [step_eq_act h]
  cases act_effect h hmeets with
  | nothing hact =>
    rw [hact]
    exact ⟨rfl, rfl⟩
  | begins asks hfits hs hact =>
    rw [hact]
    exact ⟨rfl, rfl⟩
  | changes c c' hc hchange hstanding => exact ⟨hchange.frame.1, hchange.frame.2.1⟩

theorem step_other (h : x.Inv) (hmeets : x.Meets op) (hs : s ≠ op.of) : (x.step op).session s = x.session s := by
  rw [step_eq_act h]
  cases act_effect h hmeets with
  | nothing hact => rw [hact]
  | begins asks hfits hnone hact =>
    rw [hact]
    exact Function.update_of_ne hs ..
  | changes c c' hc hchange hstanding =>
    rw [hchange.frame.2.2.2]
    exact Function.update_of_ne hs ..

theorem Change.session {x' : Connections} {d : Connection} (h : Change x s c c' x') (hd : x'.session s = some d) :
    d = c' := by
  rw [h.frame.2.2.2, Function.update_self] at hd
  exact (Option.some.inj hd).symm

/-- The call of the session has so many steps left, and the next one is of this kind. -/
def Ranked (s n : ℕ) (k : SessionTurn) (x : Connections) : Prop :=
  x.Inv ∧ ∃ c, x.session s = some c ∧ Live x.cards x.afuMap n k c

def Returned (s : ℕ) (x : Connections) : Prop := ∃ c, x.session s = some c ∧ c.lib.calling = false

theorem Ranked.own (h : x.Ranked s n k) (hmeets : x.Meets op) (hop : op.of = s) :
    ((x.step op).Returned s ∨ ∃ m < n, ∃ k', (x.step op).Ranked s m k') ∨ (x.step op = x ∧ op ≠ k.op s) := by
  subst hop
  obtain ⟨hinv, c, hc, hlive⟩ := h
  have hnext := step_inv hinv hmeets
  obtain ⟨hcards, hmap⟩ := step_cards hinv hmeets
  rw [step_eq_act hinv] at hnext hcards hmap ⊢
  rcases advances hinv hc hlive with hnothing | ⟨c', hchange, hfurther⟩
  · exact .inr hnothing
  · have hc' : (x.act op).session op.of = some c' := by
      rw [hchange.frame.2.2.2, Function.update_self]
    left
    rcases hfurther with hsettled | ⟨m, hm, k', hlive'⟩
    · exact .inl ⟨c', hc', hsettled.not_calling⟩
    · refine .inr ⟨m, hm, k', hnext, c', hc', ?_⟩
      rw [hcards, hmap]
      exact hlive'

theorem Ranked.other (h : x.Ranked s n k) (hmeets : x.Meets op) (hop : op.of ≠ s) : (x.step op).Ranked s n k := by
  obtain ⟨hinv, c, hc, hlive⟩ := h
  obtain ⟨hcards, hmap⟩ := step_cards hinv hmeets
  refine ⟨step_inv hinv hmeets, c, ?_, ?_⟩
  · rw [step_other hinv hmeets (Ne.symm hop), hc]
  · rw [hcards, hmap]
    exact hlive

theorem Ranked.keep (h : x.Ranked s n k) (hmeets : x.Meets op) :
    (x.step op).Returned s ∨ (∃ m < n, ∃ k', (x.step op).Ranked s m k') ∨ (x.step op).Ranked s n k := by
  by_cases hop : op.of = s
  · rcases h.own hmeets hop with (hreturned | hlower) | ⟨hsame, -⟩
    · exact .inl hreturned
    · exact .inr (.inl hlower)
    · rw [hsame]
      exact .inr (.inr h)
  · exact .inr (.inr (h.other hmeets hop))

theorem gone_of_calling {lib : LibPhase} (h : lib.calling = true) : lib.gone = false := by
  cases lib <;> first | rfl | exact Bool.noConfusion h

/-- A session in a slot is the one whose handle names it. -/
theorem Inv.opened (h : x.Inv) {handle : LibHandle} (hc : x.session s = some c) (hlib : c.lib = .opened handle) :
    c.OpenedAs x.cards handle ∧ ∃ i card, x.slots handle.address.bus i = some s ∧
      findCard x.cards handle.address.bus = some card ∧ i < card.maxClients ∧
      handle.context = (UInt8.ofNat i).toUInt16 := by
  have hopened : c.OpenedAs x.cards handle := by
    rcases h.standing s c hc with hsettled | ⟨n, k, hlive⟩
    · cases hsettled with
      | opened handle' hlib' hopened =>
        rw [hlib] at hlib'
        cases hlib'
        exact hopened
      | gone hgone hserved =>
        rw [hlib] at hgone
        cases hgone
    · have hcalling := hlive.calling
      rw [hlib] at hcalling
      cases hcalling
  obtain ⟨i, hclient, hcontext⟩ := hopened.associated
  have hslot := (h.housed ..).mpr ⟨c, _, hc, hclient⟩
  obtain ⟨card, hcard, hi⟩ := h.room _ _ _ hslot
  exact ⟨hopened, i, card, hslot, hcard, hi, hcontext⟩

/-- Every slot of the card that has the AFU is taken. -/
def Full (x : Connections) (asks : Asks) : Prop :=
  ∃ a fcn afu card, Target x.cards asks a fcn afu ∧ findCard x.cards a.bus = some card ∧
    ∀ i < card.maxClients, ∃ t, x.slots a.bus i = some t

/-- What a step may do to a call under way: it goes on, unless the application leaves it or ocse has refused. -/
structure Reasons (x : Connections) (op : SessionOp) (c c' : Connection) : Prop where
  gone : c'.lib.gone = true →
    (∃ s, op = .giveUp s ∨ op = .close s) ∨ c.client = .refused ∨ AskedUnknown x.cards c.asks
  refused : c'.client = .refused → c.client = .refused ∨ x.Full c.asks

theorem Reasons.same (hcalling : c.lib.calling = true) (hlib : c'.lib = c.lib)
    (hclient : c'.client = .refused → c.client = .refused ∨ x.Full c.asks) : x.Reasons op c c' where
  gone := by
    rw [hlib, gone_of_calling hcalling]
    exact Bool.noConfusion
  refused := hclient

end Returns

/-! ## Two applications and one slot -/

instance Meets.decidable (x : Connections) : ∀ op, Decidable (x.Meets op)
  | .connect _ asks => inferInstanceAs (Decidable (asks.Fits x.cards))
  | .accept _ | .serve _ | .take _ | .giveUp _ | .close _ | .depart _ => isTrue trivial

end Connections

end Ocse
