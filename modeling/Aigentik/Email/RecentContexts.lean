import Aigentik.Effects.CappedMap
import Aigentik.Effects.Sequential
import Aigentik.Email.EmailRouter

namespace Aigentik.RecentContexts

open Strings Effects GmailApiClient EmailRouter

structure Contexts where
  gvoice : SharedMap Str GoogleVoiceMessage
  email : SharedMap Str ParsedEmail

def Contexts.init : Contexts := ⟨.empty, .empty⟩

/-- The two maps answer for themselves; which of their keys comes first is open. -/
def reacts : Reacts sig Contexts
  | .gvoiceContext op, s, r, s' => s' = { s with gvoice := s.gvoice.after op } ∧ s.gvoice.Answers op r
  | .emailContext op, s, r, s' => s' = { s with email := s.email.after op } ∧ s.email.Answers op r
  | _, s, _, s' => s' = s

inductive Store
  | gvoice (senderPhone : Str) (gvm : GoogleVoiceMessage)
  | email (fromEmail : Str) (mail : ParsedEmail)
  deriving DecidableEq

variable (P : Platform)

namespace Store

def run : Store → Prog sig Throwable Unit
  | .gvoice senderPhone gvm => storeGVoiceContext senderPhone gvm
  | .email fromEmail mail => storeEmailContext P fromEmail mail

def context : Store → GoogleVoiceMessage ⊕ ParsedEmail
  | .gvoice _ gvm => .inl gvm
  | .email _ mail => .inr mail

/-- The lookup of the sender's context in `routeReply`. -/
def lookUp : Store → Prog sig Throwable (Option (GoogleVoiceMessage ⊕ ParsedEmail))
  | .gvoice senderPhone _ => do return (← lookUpGVoice (gvoiceKey senderPhone)).map .inl
  | .email fromEmail _ => .call (.emailContext (.get (emailKey P fromEmail))) fun mail ↦ .ret (mail.map .inr)

def gvoiceEntry : Store → Option (Str × GoogleVoiceMessage)
  | .gvoice senderPhone gvm => some (gvoiceKey senderPhone, gvm)
  | .email .. => none

def emailEntry : Store → Option (Str × ParsedEmail)
  | .gvoice .. => none
  | .email fromEmail mail => some (emailKey P fromEmail, mail)

def sender : Store → Str
  | .gvoice senderPhone _ => gvoiceKey senderPhone
  | .email fromEmail _ => emailKey P fromEmail

/-- The senders of the contexts that go into the same map. -/
def senders (l : List Store) : Store → Finset Str
  | .gvoice .. => SharedMap.keysOf (l.filterMap gvoiceEntry)
  | .email .. => SharedMap.keysOf (l.filterMap (emailEntry P))

/-- A Voice context is looked up only for a sender with a digit. -/
def LookedUp : Store → Prop
  | .gvoice senderPhone _ => gvoiceKey senderPhone ≠ []
  | .email .. => True

end Store

def storeAll : List Store → Prog sig Throwable Unit
  | [] => .ret ()
  | st :: l => st.run P >>= fun _ ↦ storeAll l

/-- Contexts are stored one after another; after `last` there is none of its sender. -/
structure Sequence where
  before : List Store
  last : Store
  after : List Store
  latest : last.sender P ∉ last.senders P after

variable {P}

namespace Sequence

def program (c : Sequence P) : Prog sig Throwable (Option (GoogleVoiceMessage ⊕ ParsedEmail)) :=
  storeAll P (c.before ++ c.last :: c.after) >>= fun _ ↦ c.last.lookUp P

/-- Unless 200 others have come since, the sender's latest context is found, whatever is evicted. -/
def Kept (c : Sequence P) : Prop :=
  (c.last.senders P c.after).card ≤ 199 →
    c.program.Must reacts (fun o _ ↦ o = .ok (some c.last.context)) .init

/-- All other senders that the map has had. -/
def others (c : Sequence P) : Finset Str := (c.last.senders P (c.before ++ c.after)).erase (c.last.sender P)

end Sequence

section storeCapped

variable {κ ν σ ε : Type} [DecidableEq κ] [DecidableEq ν] {m : SharedMap κ ν} {k : κ} {v : ν}

/-- A context is put, and a key may be evicted, in a state that contains the map. -/
theorem must_storeCapped {R : Reacts (mapSig κ ν) σ} {Q : Except ε Unit → σ → Prop} (state : SharedMap κ ν → σ)
    (hR : ∀ op m r s', R op (state m) r s' ↔ s' = state (m.after op) ∧ m.Answers op r) :
    (storeCapped k v).Must R Q (state m) ↔ ∀ m', m.CappedPut 200 k v m' → Q (.ok ()) (state m') := by
  have hput : R (.put k v) (state m) () (state (m.put k v)) := (hR ..).mpr ⟨rfl, trivial⟩
  have hsize : R .size (state (m.put k v)) (m.put k v).size (state (m.put k v)) := (hR ..).mpr ⟨rfl, rfl⟩
  constructor
  · intro h m' h'
    rcases h' with hfit | ⟨hlt, hfirst⟩
    · have hend := h () _ hput _ _ hsize
      rwa [evict_of_le hfit] at hend
    · rename_i first
      have hevict := h () _ hput _ _ hsize
      rw [evict, if_pos hlt] at hevict
      exact hevict (some first) _ ((hR ..).mpr ⟨rfl, hfirst⟩) () _ ((hR ..).mpr ⟨rfl, trivial⟩)
  · intro h _ s' hs' size s'' hs''
    obtain ⟨rfl, -⟩ := (hR ..).mp hs'
    obtain ⟨rfl, rfl⟩ := (hR ..).mp hs''
    change (evict (m.put k v).size).Must R Q (state (m.put k v))
    by_cases hfit : (m.put k v).size ≤ 200
    · rw [evict_of_le hfit]
      exact h _ (.fits hfit)
    · rw [evict, if_pos (Nat.lt_of_not_le hfit)]
      intro first s' hs'
      obtain ⟨rfl, hfirst⟩ := (hR ..).mp hs'
      cases first with
      | none =>
        have hempty : (m.put k v).keys = [] := hfirst
        exact absurd SharedMap.mem_keys_put (hempty ▸ List.not_mem_nil)
      | some first =>
        intro _ s' hs'
        obtain ⟨rfl, -⟩ := (hR ..).mp hs'
        exact h _ (.evicts (Nat.lt_of_not_le hfit) hfirst)

end storeCapped

variable {s : Contexts}

theorem must_storeAll {Q : Except Throwable Unit → Contexts → Prop} (l : List Store) :
    (storeAll P l).Must reacts Q s ↔ ∀ g e, s.gvoice.CappedPuts 200 (l.filterMap Store.gvoiceEntry) g →
      s.email.CappedPuts 200 (l.filterMap (Store.emailEntry P)) e → Q (.ok ()) ⟨g, e⟩ := by
  induction l generalizing s with
  | nil =>
    simp only [List.filterMap_nil, SharedMap.cappedPuts_nil]
    exact ⟨fun h g e hg he ↦ hg ▸ he ▸ h, fun h ↦ h _ _ rfl rfl⟩
  | cons st l ih =>
    obtain ⟨gvoice, email⟩ := s
    rw [storeAll, Prog.must_bind]
    cases st with
    | gvoice senderPhone gvm =>
      refine (Prog.must_lift gvoiceHom _).trans
        ((must_storeCapped (fun m ↦ (⟨m, email⟩ : Contexts)) fun _ _ _ _ ↦ Iff.rfl).trans ?_)
      simp only [List.filterMap_cons, Store.gvoiceEntry, Store.emailEntry, SharedMap.cappedPuts_cons, Prog.exits_ok, ih]
      exact ⟨fun h g e ⟨m', hput, hg⟩ he ↦ h m' hput g e hg he, fun h m' hput g e hg he ↦ h g e ⟨m', hput, hg⟩ he⟩
    | email fromEmail mail =>
      refine (Prog.must_lift emailHom _).trans
        ((must_storeCapped (fun m ↦ (⟨gvoice, m⟩ : Contexts)) fun _ _ _ _ ↦ Iff.rfl).trans ?_)
      simp only [List.filterMap_cons, Store.gvoiceEntry, Store.emailEntry, SharedMap.cappedPuts_cons, Prog.exits_ok, ih]
      exact ⟨fun h g e hg ⟨m', hput, he⟩ ↦ h m' hput g e hg he, fun h m' hput g e hg he ↦ h g e hg ⟨m', hput, he⟩⟩

theorem must_lookUp_gvoice {senderPhone : Str} {gvm : GoogleVoiceMessage} :
    ((Store.gvoice senderPhone gvm).lookUp P).Must reacts (fun o _ ↦ o = .ok (some (.inl gvm))) s ↔
      gvoiceKey senderPhone ≠ [] ∧ s.gvoice.get (gvoiceKey senderPhone) = some gvm := by
  rw [Store.lookUp, lookUpGVoice]
  by_cases hkey : gvoiceKey senderPhone = []
  · rw [if_pos hkey]
    exact iff_of_false nofun fun h ↦ h.1 hkey
  · rw [if_neg hkey]
    constructor
    · intro h
      have hfound := h _ s ⟨rfl, rfl⟩
      exact ⟨hkey, Option.map_injective Sum.inl_injective (Except.ok.inj hfound)⟩
    · rintro ⟨-, hget⟩ r s' ⟨-, rfl⟩
      rw [hget]
      rfl

theorem must_lookUp_email {fromEmail : Str} {mail : ParsedEmail} :
    ((Store.email fromEmail mail).lookUp P).Must reacts (fun o _ ↦ o = .ok (some (.inr mail))) s ↔
      s.email.get (emailKey P fromEmail) = some mail := by
  constructor
  · intro h
    have hfound := h _ s ⟨rfl, rfl⟩
    exact Option.map_injective Sum.inr_injective (Except.ok.inj hfound)
  · intro hget r s' h'
    obtain ⟨-, rfl⟩ := h'
    rw [hget]
    rfl

theorem program_must_iff (c : Sequence P) :
    c.program.Must reacts (fun o _ ↦ o = .ok (some c.last.context)) .init ↔ c.last.LookedUp ∧ c.others.card ≤ 199 := by
  obtain ⟨before, last, after, latest⟩ := c
  rw [Sequence.program, Prog.must_bind]
  refine (must_storeAll _).trans ?_
  cases last with
  | gvoice senderPhone gvm =>
    have hentries : (before ++ .gvoice senderPhone gvm :: after).filterMap Store.gvoiceEntry =
        before.filterMap Store.gvoiceEntry ++
          ((Store.gvoice senderPhone gvm).sender P, gvm) :: after.filterMap Store.gvoiceEntry := by
      simp only [List.filterMap_append, List.filterMap_cons, Store.gvoiceEntry, Store.sender]
    have hkept := SharedMap.kept_iff 200 (before.filterMap Store.gvoiceEntry) gvm latest
    rw [← List.filterMap_append, ← hentries] at hkept
    constructor
    · intro h
      obtain ⟨e, he⟩ := SharedMap.exists_cappedPuts 200
        ((before ++ .gvoice senderPhone gvm :: after).filterMap (Store.emailEntry P))
      have hfound (g) (hg) := must_lookUp_gvoice.mp (h g e hg he)
      obtain ⟨g, hg⟩ := SharedMap.exists_cappedPuts 200
        ((before ++ .gvoice senderPhone gvm :: after).filterMap Store.gvoiceEntry)
      exact ⟨(hfound g hg).1, Nat.lt_succ_iff.mp (hkept.mp fun g hg ↦ (hfound g hg).2)⟩
    · intro h' g e hg he
      obtain ⟨hkey, hroom⟩ := h'
      exact must_lookUp_gvoice.mpr ⟨hkey, hkept.mpr (Nat.lt_succ_iff.mpr hroom) g hg⟩
  | email fromEmail mail =>
    have hentries : (before ++ .email fromEmail mail :: after).filterMap (Store.emailEntry P) =
        before.filterMap (Store.emailEntry P) ++
          ((Store.email fromEmail mail).sender P, mail) :: after.filterMap (Store.emailEntry P) := by
      simp only [List.filterMap_append, List.filterMap_cons, Store.emailEntry, Store.sender]
    have hkept := SharedMap.kept_iff 200 (before.filterMap (Store.emailEntry P)) mail latest
    rw [← List.filterMap_append, ← hentries] at hkept
    constructor
    · intro h
      obtain ⟨g, hg⟩ := SharedMap.exists_cappedPuts 200
        ((before ++ .email fromEmail mail :: after).filterMap Store.gvoiceEntry)
      exact ⟨trivial, Nat.lt_succ_iff.mp (hkept.mp fun e he ↦ must_lookUp_email.mp (h g e hg he))⟩
    · intro h' g e hg he
      obtain ⟨-, hroom⟩ := h'
      exact must_lookUp_email.mpr (hkept.mpr (Nat.lt_succ_iff.mpr hroom) e he)

/-- The latest context is found in every order exactly if at most 199 other senders have written at all. -/
theorem recent_kept_iff (P : Platform) (c : Sequence P) :
    c.Kept ↔ ((c.last.senders P c.after).card ≤ 199 → c.last.LookedUp ∧ c.others.card ≤ 199) :=
  imp_congr_right fun _ ↦ program_must_iff c

/-! Two hundred other senders -/

def hello : ParsedEmail := ⟨"<1@example.com>", "1", "t1", "ann@example.com", "Ann", "hi", "hello", true⟩

def fullMap : Sequence asciiPlatform where
  before := (List.range 200).map fun i ↦ .email (List.replicate i 'x') hello
  last := .email "ann@example.com" hello
  after := []
  latest := Finset.notMem_empty _

theorem emailKey_replicate (n : ℕ) : emailKey asciiPlatform (List.replicate n 'x') = List.replicate n 'x' := by
  have hblank : ¬isWhitespace 'x' = true := by decide
  have htrim : trim (List.replicate n 'x') = List.replicate n 'x' := by
    rw [trim, List.dropWhile_replicate, if_neg hblank, List.rdropWhile, List.reverse_replicate,
      List.dropWhile_replicate, if_neg hblank, List.reverse_replicate]
  have hlower : Char.toLower 'x' = 'x' := by decide
  change (trim (List.replicate n 'x')).map Char.toLower = _
  rw [htrim, List.map_replicate, hlower]

theorem fullMap_others : 200 ≤ fullMap.others.card := by
  have hcard : ((Finset.range 200).image fun i ↦ List.replicate i 'x').card = 200 := by
    rw [Finset.card_image_of_injective _ (List.replicate_left_injective 'x'), Finset.card_range]
  refine hcard.symm.le.trans (Finset.card_le_card fun key hkey ↦ ?_)
  obtain ⟨i, hi, rfl⟩ := Finset.mem_image.mp hkey
  have hann : 'a' ∉ List.replicate i 'x' := fun h ↦ absurd (List.eq_of_mem_replicate h) (by decide)
  refine Finset.mem_erase.mpr ⟨fun heq ↦ hann (heq ▸ by decide +kernel), List.mem_toFinset.mpr ?_⟩
  refine List.mem_map.mpr ⟨(List.replicate i 'x', hello), ?_, rfl⟩
  refine List.mem_filterMap.mpr ⟨.email (List.replicate i 'x') hello, ?_, ?_⟩
  · exact List.mem_append_left _ (List.mem_map.mpr ⟨i, List.mem_range.mpr (Finset.mem_range.mp hi), rfl⟩)
  · rw [Store.emailEntry, emailKey_replicate]

/-- The entry that has just been stored may be the one that is evicted. -/
theorem latest_evicted : (fullMap.last.senders asciiPlatform fullMap.after).card = 0 ∧ ¬fullMap.Kept := by
  refine ⟨rfl, fun h ↦ ?_⟩
  have hroom : fullMap.others.card ≤ 199 := ((program_must_iff fullMap).mp (h (Nat.zero_le 199))).2
  exact absurd (fullMap_others.trans hroom) (by decide)

end Aigentik.RecentContexts
