import DoubleRatchet.Proofs.Engine.Alike
import DoubleRatchet.Proofs.Engine.PreKeys

/-!
# What becomes of one-time pre-keys

An operation leaves all one-time pre-keys as they are but those that it makes
and the one that a first message of a new session uses up. A state that is
stored after it continues one that was stored before, or one that was set up, as
responder only for such a message. Main statements: `Operation.preKeys_perform`
and `origin_perform`.
-/
namespace DoubleRatchet

namespace PreKeys

variable [Suite]

/-- The signed pre-key of a bundle is no one-time pre-key. -/
theorem preKeys_generateBundle (deviceId start : UInt32) (count : Nat) (now : UInt64) (d : Device) :
    (outcome (generateBundle deviceId start count now) d).2.stores.preKeys =
      (outcome (generate start.toNat count) d).2.stores.preKeys := by
  rw [outcome_generateBundle]
  rcases outcome (generate start.toNat count) d with ⟨fault | keys, d₁⟩
  · rfl
  · cases nextSignedId d.stores <;> rfl

end PreKeys

variable [Suite]

namespace Operation

/-- The ids under which an operation stores one-time pre-keys. -/
def supplies : Operation → List UInt32
  | generate _ start count _ => PreKeys.idsFrom start.toNat count
  | _ => []

/-- An operation leaves the one-time pre-keys as they are that it neither supplies nor uses up. -/
theorem preKeys_perform (c : Config) (d : Device) {op : Operation} {id : UInt32}
    (hsupplies : id ∉ op.supplies)
    (hclaims : (outcome (op.act c) d).1.isOk = true → op.claims d.stores ≠ some id) :
    (op.perform c d).stores.preKeys.get? id = d.stores.preKeys.get? id := by
  have hacts := acts_perform c d op
  generalize hs : (op.perform c d).stores = s at hacts ⊢
  cases hacts with
  | same | started | written => rfl
  | made deviceId start count now =>
    rw [perform, PreKeys.preKeys_generateBundle]
    exact PreKeys.get?_generate_of_notMem start.toNat count d hsupplies
  | @read now peer m x plain e opened =>
    rcases hrun : outcome (Engine.decrypt c now peer m) d with ⟨fault | plain, d'⟩
    · rw [← hs, perform, hrun, Engine.decrypt_error hrun]
    · rcases hused : x.used with _ | used
      · rfl
      · have hne : id ≠ used := by
          rintro rfl
          refine hclaims ?_ (claims_of_opened (hused ▸ opened))
          rw [act, outcome_map, hrun]
          rfl
        exact (Table.get?_erase _ _ _).trans (if_neg hne)

end Operation

/-- A state for a peer was stored, or it is set up as initiator, or as responder to an
answered first message. -/
inductive Origin (peer : Address) (d : Device) (answered : PreKeyMessage → Prop) : State → Prop
  | stored {s : State} (mem : s ∈ d.states peer) : Origin peer d answered s
  | initiator {b : Bundle} {base sending : KeyPair} {agreed : State}
      (agree : (Engine.initiator d.stores b base).state sending = .ok agreed) :
      Origin peer d answered (Engine.started d.stores b base agreed)
  | responder {m : PreKeyMessage} {own : State} (answers : answered m)
      (respond : Engine.respond d.stores m = .ok own) :
      Origin peer d answered own

theorem Origin.mono {peer : Address} {d : Device} {answered answered' : PreKeyMessage → Prop}
    {s : State} (h : Origin peer d answered s) (himp : ∀ m, answered m → answered' m) :
    Origin peer d answered' s := by
  cases h with
  | stored mem => exact .stored mem
  | initiator agree => exact .initiator agree
  | responder answers respond => exact .responder (himp _ answers) respond

/-- An operation answers a first message for a peer. -/
def Operation.Answers (c : Config) (d : Device) (op : Operation) (peer : Address)
    (m : PreKeyMessage) : Prop :=
  (∃ now, op = .decrypt now peer (.preKey m)) ∧ (outcome (op.act c) d).1.isOk = true ∧
    (d.stores.loadSession peer).hasState m.version m.baseKey = false

/-- What a state reads in is stored, or it is set up for the message. -/
theorem origin_opened {c : Config} {now : UInt64} {peer : Address} {m : Message} {d d' : Device}
    {plain : Bytes} (hrun : outcome (Engine.decrypt c now peer m) d = (.ok plain, d')) {r : Record}
    {used : Option UInt32} (hopen : Engine.opened c d.stores peer m = .ok (r, used)) {s : State}
    (hs : s ∈ r.states) :
    Origin peer d ((Operation.decrypt now peer m).Answers c d peer) s := by
  cases m with
  | ratchet m =>
    cases hopen
    exact .stored hs
  | preKey p =>
    obtain ⟨-, ⟨-, rfl, -⟩ | ⟨hnew, own, hown, rfl, -⟩⟩ := Engine.prepare_ok.mp hopen
    · exact .stored hs
    · rcases Record.mem_states_promote hs with rfl | hs
      · refine .responder ⟨⟨now, rfl⟩, ?_, hnew⟩ hown
        rw [Operation.act, outcome_map, hrun]
        rfl
      · exact .stored hs

/-- Every state that is stored after an operation continues one that was stored or is set up. -/
theorem origin_perform (c : Config) (d : Device) (op : Operation) {peer : Address} {s : State}
    (hs : s ∈ (op.perform c d).states peer) :
    ∃ r, r.SameSession s ∧ Origin peer d (op.Answers c d peer) r := by
  have hleaves := leaves_perform c peer d op
  unfold Device.states at hs
  generalize hr : (op.perform c d).stores.loadSession peer = r at hleaves hs
  cases hleaves with
  | same => exact ⟨s, .refl s, .stored hs⟩
  | started agree =>
    rcases Record.mem_states_promote hs with rfl | hs
    · exact ⟨_, .refl _, .initiator agree⟩
    · exact ⟨s, .refl s, .stored hs⟩
  | @written before _ _ _ current written =>
    rcases List.mem_cons.mp hs with rfl | hs
    · refine ⟨before, State.sameSession_encrypt written, .stored ?_⟩
      simp [Device.states, Record.states, current]
    · exact ⟨s, .refl s, .stored (List.mem_append_right _ hs)⟩
  | @read now m x plain e opened reads =>
    rcases hrun : outcome (Engine.decrypt c now peer m) d with ⟨fault | plain', d'⟩
    · have hsame : (x.stored c).states = d.states peer := by
        rw [← hr, Operation.perform, hrun, Engine.decrypt_error hrun, Device.states]
      exact ⟨s, .refl s, .stored (hsame ▸ hs)⟩
    · rcases List.mem_cons.mp hs with rfl | hs
      · obtain ⟨e₁, -, hread⟩ := reads.reads
        exact ⟨x.before, hread.sameSession,
          origin_opened hrun opened (List.mem_of_getElem? reads.place)⟩
      · exact ⟨s, .refl s, origin_opened hrun opened (Record.mem_states_of_mem_others hs)⟩

end DoubleRatchet
