import Locus.ProtocolClientRun

set_option autoImplicit false

/- Which algorithm each packet of a session goes out under. -/
namespace Locus.ProtocolClient

open Transition

variable {Key : Type} {lib : CryptoLibrary Key}

/-- The rules for a packet of a type that is sent under an algorithm. -/
structure Disciplined (earlier : List Act) (type : PacketType) (algorithm : Algorithm) :
    Prop where
  clear : algorithm = .None ↔ type = .OPEN_ENCR
  outer : type = .SYMMETRIC_KEY → algorithm = .OuterRSA ∧ ∃ key, .accepted key ∈ earlier
  symmetric : type ≠ .OPEN_ENCR → type ≠ .SYMMETRIC_KEY → algorithm = .AES
  server : algorithm ≠ .ServerRSA

/-- The rules for one act after what a session has done so far. -/
def CipherLaw (earlier : List Act) : Act → Prop
  | .sent type algorithm _ _ => Disciplined earlier type algorithm
  | _ => True

theorem disciplined_aes {earlier : List Act} {type : PacketType} (later : type ≠ .OPEN_ENCR)
    (other : type ≠ .SYMMETRIC_KEY) : Disciplined earlier type .AES :=
  ⟨by simp [later], fun same => absurd same other, fun _ _ => rfl, by decide⟩

theorem cipherLaw_of_input {earlier : List Act} {entry : Act} (input : isInput entry) :
    CipherLaw earlier entry := by
  cases entry with
  | sent type algorithm payload frame => cases input
  | _ => trivial

theorem Ordinary.cipherLaw {id : Int16} {entry : Act} (ordinary : Ordinary id entry)
    (earlier : List Act) : CipherLaw earlier entry := by
  cases ordinary with
  | input input => exact cipherLaw_of_input input
  | @send type payload frame plain =>
      apply disciplined_aes
      · rintro rfl
        cases plain
      · rintro rfl
        cases plain
  | call speaks => trivial

/-- Acts that obey the rules whatever went before. -/
theorem cipher_append {acts log : List Act} (each : Each CipherLaw acts)
    (obeys : ∀ entry ∈ log, ∀ earlier, CipherLaw earlier entry) :
    Each CipherLaw (acts ++ log) := by
  refine each_append.mpr ⟨each, .of_forall ?_⟩
  intro earlier _ entry member
  exact obeys entry member _

theorem Communicated.cipher {before after : Session Key}
    (communicated : Communicated lib before after) (each : Each CipherLaw before.acts) :
    Each CipherLaw after.acts := by
  obtain ⟨log, closing, acts, ordinary, ending, _⟩ := communicated.acts
  rw [acts]
  apply cipher_append each
  intro entry member earlier
  rcases List.mem_append.mp member with front | last
  · rcases List.mem_cons.mp front with rfl | inside
    · trivial
    · exact (ordinary entry inside).cipherLaw earlier
  · rcases ending with rfl | rfl
    · exact absurd last List.not_mem_nil
    · rw [List.mem_singleton.mp last]
      trivial

theorem Outcome.cipher {turn : Turn} {before after : Session Key}
    (outcome : Outcome lib turn before after) (each : Each CipherLaw before.acts) :
    Each CipherLaw after.acts := by
  cases outcome with
  | idle acts client => exact acts ▸ each
  | closes acts client =>
      rw [acts, each_snoc]
      exact ⟨each, trivial⟩
  | listens receives stage listened =>
      obtain ⟨log, closing, inputs, ending, acts, _⟩ := listened
      rw [acts, ← List.append_assoc]
      have heard := cipher_append each fun entry member _ =>
        cipherLaw_of_input (inputs entry member)
      rcases ending with rfl | rfl
      · rwa [List.append_nil]
      · exact each_snoc.mpr ⟨heard, trivial⟩
  | takesPublicKey bytes key frame receives stage passed =>
      have outer : ∀ {earlier : List Act}, .accepted key ∈ earlier →
          Disciplined earlier .SYMMETRIC_KEY .OuterRSA := by
        intro earlier accepted
        exact ⟨by decide, fun _ => ⟨rfl, key, accepted⟩, by simp, by decide⟩
      rw [passed.acts, each_append]
      simp only [each_cons, each_nil, CipherLaw, true_and, and_true]
      exact ⟨each, outer (by simp)⟩
  | takesSymmetricKey bytes frame receives stage passed =>
      rw [passed.acts, each_append]
      simp only [each_cons, each_nil, CipherLaw, true_and, and_true]
      exact ⟨each, disciplined_aes (by decide) (by decide)⟩
  | refuses log middle receives stage inputs acts same next refused communicated =>
      apply communicated.cipher
      rw [acts, ← List.append_assoc, each_snoc]
      exact ⟨cipher_append each fun entry member _ => cipherLaw_of_input (inputs entry member),
        trivial⟩
  | registers payload frame publicKey queue middle receives stage tests passed communicated =>
      apply communicated.cipher
      rw [passed.acts, each_append]
      simp only [each_cons, each_nil, CipherLaw, true_and, and_true]
      exact ⟨each, disciplined_aes (by decide) (by decide)⟩
  | communicates receives stage communicated => exact communicated.cipher each
  | forwards log stage message ordinary acts steady settled =>
      rw [acts]
      exact cipher_append each fun entry member earlier =>
        (ordinary entry member).cipherLaw earlier

/-- In every run of a session each packet goes out under the algorithm of its type. -/
theorem cipher_discipline {rsaServerCrypto : RSASimpleCrypto Key} {blank : Key} {aesKey : Bytes}
    {blockingQueue : QueueRef} {events : List Event} {life : Life Key}
    (run : Run (Step lib) (create lib rsaServerCrypto blank aesKey blockingQueue) events life) :
    Each CipherLaw life.acts := by
  have lawful : Sound life.client ∧ Each CipherLaw life.acts := by
    apply run.invariant (fun life => Sound life.client ∧ Each CipherLaw life.acts)
    · refine ⟨create_sound .., ?_⟩
      simp only [create_eq, each_cons, each_nil, and_true]
      exact ⟨by decide, by simp, by simp, by decide⟩
    · rintro before event after ⟨sound, each⟩ step
      refine step_holds (fun _ acts => Each CipherLaw acts) sound each ?_ ?_ step
      · intro turn final _ outcome
        exact outcome.cipher each
      · intro database reply _ _
        exact each_snoc.mpr ⟨each, trivial⟩
  exact lawful.2

theorem cipher_discipline_greeting :
    Each CipherLaw (play transparent newcomer greeting).acts :=
  cipher_discipline greeting_run

end Locus.ProtocolClient
