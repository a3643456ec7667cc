import Aigentik.Email.GmailNotifications

namespace Aigentik.WakeUps

open Strings Effects GmailHistoryClient GmailNotifications EmailMonitor

def succeeds : (op : MailOp) → mailSig.Resp op → Bool
  | .getFreshToken, .ok (some _) => true
  | .getFreshToken, _ => false
  | .getMessage _, .ok (some _) => true
  | .getMessage _, _ => false
  | .listUnread _, .ok _ => true
  | .listUnread _, _ => false
  | .markAsRead _, .ok r => r
  | .markAsRead _, .error _ => false
  | .sendEmail _, sent => sent
  | .historyList .., .ok _ => true
  | .historyList .., _ => false
  | .profile _, .ok (some _) => true
  | .profile _, _ => false
  | _, _ => true

/-- A fetch ends without an exception, and not before it has listed the e-mails. -/
abbrev listing : Discipline monitorSig Stage := disc succeeds False (· = true)

/-- What such a fetch asks of the mail operations. -/
abbrev mailListing : Discipline mailSig Stage := listing.pull mailHom

variable {P : Platform} {msgId : Str}

def Listed (msgId : Str) (l : Stage) : Prop := l = .fetching msgId true

abbrev Ends (α : Type) (msgId : Str) : Except Throwable α → Stage → Prop :=
  Prog.exits (fun _ ↦ Listed msgId) fun _ _ ↦ False

theorem listed_next {op : MailOp} {r : mailSig.Resp op} {l : Stage} (hl : Listed msgId l) :
    Listed msgId (mailListing.next l op r) := by
  obtain rfl : l = .fetching msgId true := hl
  change (if lists op r = true then Stage.fetching msgId true else Stage.fetching msgId true) = _
  split <;> rfl

theorem total_wp {α : Type} {p : Mail α} (hp : p.Total) : p.wp mailListing (Ends α msgId) (.fetching msgId true) :=
  (Prog.calls_of_forall (C := fun _ ↦ True) (fun _ ↦ trivial) p).wp_total hp
    (fun l op hl _ ↦ ⟨by obtain rfl : l = .fetching msgId true := hl; rfl, fun _ _ ↦ listed_next hl⟩) rfl

theorem primeHistoryId_wp : primeHistoryId.wp mailListing (Ends PrimeResult msgId) (.fetching msgId true) := by
  refine ⟨rfl, fun _ _ ↦ ⟨rfl, fun _ _ ↦ ⟨rfl, fun _ _ ↦ ⟨rfl, fun cached _ ↦ ?_⟩⟩⟩⟩
  cases cached with
  | some historyId => rfl
  | none =>
    refine ⟨rfl, fun token htoken ↦ ?_⟩
    rcases token with e | _ | token
    · cases htoken
    · rfl
    · refine ⟨rfl, fun profile _ ↦ ?_⟩
      rcases profile with (_ | historyId) | _ | _
      · rfl
      · change Prog.wp mailListing _ (saveHistoryId historyId >>= _) _
        exact total_wp (Prog.Total.bind (saveHistoryId_total historyId) fun _ ↦ trivial)
      · rfl
      · rfl

theorem processFromHistory_wp (startHistoryId : Str) :
    (processFromHistory P startHistoryId).wp mailListing (Ends Unit msgId) (.fetching msgId false) := by
  refine (Prog.wp_bind _ _).mpr ⟨rfl, fun token htoken ↦ ?_⟩
  rcases token with e | _ | token
  · cases htoken
  · cases htoken
  · refine ⟨rfl, fun history hhistory ↦ ?_⟩
    rcases history with page | _ | _
    · change Prog.wp mailListing (Ends Unit msgId) _ (Stage.fetching msgId true)
      dsimp only
      split
      · refine (Prog.wp_bind _ _).mpr (Prog.wp_mono primeHistoryId_wp fun o l hl ↦ ?_)
        cases o with
        | ok _ => exact hl
        | error e => exact hl
      · exact total_wp ((processNewEmails_total P _).bind fun _ ↦ saveHistoryId_total _)
    · cases hhistory
    · cases hhistory

theorem processUnread_wp : (processUnread P).wp mailListing (Ends Unit msgId) (.fetching msgId false) := by
  refine ⟨rfl, fun emails hemails ↦ ?_⟩
  rcases emails with e | _ | ⟨email, rest⟩
  · cases hemails
  · rfl
  · refine ⟨rfl, fun own _ ↦ total_wp (processEachListed_total P _ _)⟩

theorem fetch_wp : ((fetch P).lift mailHom).wp listing
    (Prog.exits (fun _ l ↦ ∃ listed, l = .fetching msgId listed ∧ listed = true)
      fun _ l ↦ False ∧ ∃ listed, l = .fetching msgId listed ∧ listed = true) (.fetching msgId false) := by
  refine (Prog.wp_lift _ _).mpr ?_
  have hends : (fetch P).wp mailListing (Ends Unit msgId) (.fetching msgId false) := by
    refine ⟨rfl, fun stored _ ↦ ⟨rfl, fun _ _ ↦ ⟨rfl, fun cached _ ↦ ?_⟩⟩⟩
    cases cached with
    | some historyId => exact processFromHistory_wp historyId
    | none => exact processUnread_wp
  refine Prog.wp_mono hends fun o l hl ↦ ?_
  cases o with
  | ok _ => exact ⟨true, hl, rfl⟩
  | error e => exact hl.elim

/-! What the fetches cover -/

/-- A fetch that has started after the e-mail arrived has listed the e-mails. -/
def Covered (s : Shared) (msgId : Str) : Prop := msgId ∈ s.arrived.take s.covered

/-- What is known of the e-mail of a thread's notification. -/
def Knows (s : Shared) (i : ℕ) : Stage → Prop
  | .posted msgId | .won msgId | .launched msgId => msgId ∈ s.arrived
  | .fetching msgId listed => msgId ∈ s.arrived.take (s.began i) ∧ (listed = true → Covered s msgId)
  | .idle | .finished => True

/-- The e-mail that a thread is about to cover. -/
def awaits : Stage → Option Str
  | .won msgId | .launched msgId | .fetching msgId false => some msgId
  | _ => none

structure Inv (s : Shared) (ls : List Stage) : Prop where
  sole : Sole (fun l ↦ l.holds = true) s.isProcessing ls
  knows : ∀ (i : ℕ) (l : Stage), ls[i]? = some l → Knows s i l
  due : ∀ msgId ∈ s.launched, Covered s msgId ∨ ∃ (i : ℕ) (l : Stage), ls[i]? = some l ∧ awaits l = some msgId

variable {s s' : Shared} {ls new : List Stage} {i : ℕ} {l l' : Stage}

theorem holds_of_awaits (h : awaits l = some msgId) : l.holds = true := by
  cases l <;> first | rfl | cases h

theorem Inv.covered (h : Inv s ls) (hidle : s.isProcessing = false) (hlaunched : msgId ∈ s.launched) :
    Covered s msgId := by
  refine (h.due msgId hlaunched).resolve_right ?_
  intro h'
  obtain ⟨i, l, hi, hl⟩ := h'
  have hflag := (h.sole i l hi (holds_of_awaits hl)).1
  rw [hidle] at hflag
  cases hflag

/-- The mailbox grows, and so does what has been covered. -/
structure Grows (s s' : Shared) (i : ℕ) : Prop where
  arrived : s.arrived <+: s'.arrived
  covered : s.covered ≤ s'.covered
  began : ∀ j, j ≠ i → s'.began j = s.began j

theorem Grows.same (s : Shared) : Grows s s i := ⟨List.prefix_rfl, Nat.le_refl _, fun _ _ ↦ rfl⟩

theorem mem_take {l l' : List Str} {n n' : ℕ} (h : msgId ∈ l.take n) (hpre : l <+: l') (hn : n ≤ n') :
    msgId ∈ l'.take n' := by
  have hsub : l.take n <+: l'.take n' :=
    List.prefix_take_iff.mpr ⟨(List.take_prefix _ _).trans hpre, (List.length_take_le n l).trans hn⟩
  exact hsub.subset h

theorem Covered.mono (h : Covered s msgId) (hg : Grows s s' i) : Covered s' msgId :=
  mem_take h hg.arrived hg.covered

theorem Knows.mono {j : ℕ} {x : Stage} (h : Knows s j x) (hg : Grows s s' i) (hj : j ≠ i) : Knows s' j x := by
  cases x with
  | fetching msgId listed =>
    exact ⟨mem_take h.1 hg.arrived (by rw [hg.began j hj]), fun hlisted ↦ (h.2 hlisted).mono hg⟩
  | idle => trivial
  | finished => trivial
  | posted msgId => exact hg.arrived.subset h
  | won msgId => exact hg.arrived.subset h
  | launched msgId => exact hg.arrived.subset h

theorem Inv.move (h : Inv s ls) (hi : ls[i]? = some l) (hg : Grows s s' i)
    (hsole : Sole (fun l ↦ l.holds = true) s'.isProcessing (ls.set i l' ++ new)) (hown : Knows s' i l')
    (hnew : ∀ x ∈ new, ∀ j, Knows s' j x)
    (hlaunched : ∀ msgId ∈ s'.launched, msgId ∈ s.launched ∨ awaits l' = some msgId)
    (hdue : ∀ msgId, awaits l = some msgId → Covered s' msgId ∨ awaits l' = some msgId ∨
      ∃ x ∈ new, awaits x = some msgId) : Inv s' (ls.set i l' ++ new) := by
  have hself : (ls.set i l' ++ new)[i]? = some l' := getElem?_append_of_some (getElem?_set_of_some hi)
  refine ⟨hsole, fun j x hj ↦ ?_, fun msgId hmem ↦ ?_⟩
  · rcases getElem?_step hj with ⟨rfl, rfl⟩ | ⟨hne, hj⟩ | ⟨-, hx⟩
    · exact hown
    · exact (h.knows j x hj).mono hg hne
    · exact hnew x hx j
  · rcases hlaunched msgId hmem with hmem | hawaits
    · rcases h.due msgId hmem with hcovered | ⟨j, x, hj, hx⟩
      · exact .inl (hcovered.mono hg)
      · by_cases hji : j = i
        · rw [hji, hi] at hj
          cases hj
          rcases hdue msgId hx with hcovered | hawaits | ⟨x, hmem, hx⟩
          · exact .inl hcovered
          · exact .inr ⟨i, l', hself, hawaits⟩
          · obtain ⟨k, hk⟩ := List.mem_iff_getElem?.mp (List.mem_append_right (ls.set i l') hmem)
            exact .inr ⟨k, x, hk, hx⟩
        · refine .inr ⟨j, x, getElem?_append_of_some ?_, hx⟩
          rwa [List.getElem?_set_ne (Ne.symm hji)]
    · exact .inr ⟨i, l', hself, hawaits⟩

/-- One thread moves on and starts no other, with no e-mail that it has yet to cover left behind. -/
theorem Inv.step (h : Inv s ls) (hi : ls[i]? = some l) (hg : Grows s s' i)
    (hsole : Sole (fun l ↦ l.holds = true) s'.isProcessing (ls.set i l')) (hown : Knows s' i l')
    (hlaunched : ∀ msgId ∈ s'.launched, msgId ∈ s.launched ∨ awaits l' = some msgId)
    (hdue : ∀ msgId, awaits l = some msgId → Covered s' msgId ∨ awaits l' = some msgId) :
    Inv s' (ls.set i l' ++ []) :=
  h.move hi hg (by rwa [List.append_nil]) hown (by simp) hlaunched fun msgId hl ↦ (hdue msgId hl).imp_right .inl

theorem inv_call {op : MonitorOp} {offer r : monitorSig.Resp op} (hi : ls[i]? = some l) (hallow : listing.allow l op)
    (ha : GmailNotifications.act succeeds i op offer s = some (r, s')) (h : Inv s ls) : listing.may l op r ∧
      Inv s' (ls.set i (listing.next l op r) ++ ((spawned P op).map fun _ ↦ spawnStage op).toList) := by
  have hknows := h.knows i l hi
  cases op with
  | arrive msgId =>
    obtain ⟨-, heq⟩ := Option.ite_none_left_eq_some.mp ha
    cases heq
    obtain rfl : l = .idle := hallow
    exact ⟨trivial, h.step hi ⟨List.prefix_append _ _, Nat.le_refl _, fun _ _ ↦ rfl⟩ (h.sole.keep hi id) trivial
      (fun _ ↦ .inl) fun _ hl ↦ by cases hl⟩
  | posted msgId =>
    obtain ⟨harrived, heq⟩ := Option.ite_none_right_eq_some.mp ha
    cases heq
    obtain rfl : l = .idle := hallow
    exact ⟨trivial, h.step hi (.same s) (h.sole.keep hi id) harrived (fun _ ↦ .inl) fun _ hl ↦ by cases hl⟩
  | isSignedIn =>
    cases ha
    exact ⟨trivial, h.step hi (.same s) (h.sole.keep hi id) hknows (fun _ ↦ .inl) fun _ ↦ .inr⟩
  | compareAndSet msgId =>
    cases ha
    obtain rfl : l = .posted msgId := hallow
    refine ⟨trivial, ?_⟩
    cases hflag : s.isProcessing with
    | true =>
      refine h.step hi ⟨List.prefix_rfl, Nat.le_refl _, fun _ _ ↦ rfl⟩ ?_ trivial (fun _ ↦ .inl) fun _ hl ↦ by cases hl
      have hsole := h.sole
      rw [hflag] at hsole
      exact hsole.keep hi fun hl ↦ by cases hl
    | false =>
      have hsole := h.sole
      rw [hflag] at hsole
      refine h.step hi ⟨List.prefix_rfl, Nat.le_refl _, fun _ _ ↦ rfl⟩ hsole.acquire hknows (fun m hm ↦ ?_)
        fun _ hl ↦ by cases hl
      rcases List.mem_append.mp hm with hm | hm
      · exact .inl hm
      · exact .inr (congrArg some (List.mem_singleton.mp hm).symm)
  | launch msgId =>
    cases ha
    obtain rfl : l = .won msgId := hallow
    refine ⟨trivial, h.move hi (.same s) (h.sole.handOver hi rfl (by simp [disc, Stage.holds])) trivial
      (fun x hx j ↦ ?_) (fun _ ↦ .inl) fun m hm ↦ .inr (.inr ⟨.launched msgId, List.mem_singleton_self _, hm⟩)⟩
    obtain rfl : x = .launched msgId := List.mem_singleton.mp hx
    exact hknows
  | begin =>
    cases ha
    obtain ⟨msgId, rfl⟩ := hallow
    refine ⟨trivial, h.step hi ⟨List.prefix_rfl, Nat.le_refl _, fun j hj ↦ Function.update_of_ne hj _ _⟩
      (h.sole.keep hi fun _ ↦ rfl) ⟨?_, fun hl ↦ by cases hl⟩ (fun _ ↦ .inl) fun _ ↦ .inr⟩
    change msgId ∈ s.arrived.take (Function.update s.began i s.arrived.length i)
    rw [Function.update_self, List.take_length]
    exact hknows
  | finish =>
    cases ha
    obtain ⟨msgId, listed, rfl, rfl⟩ := hallow
    exact ⟨trivial, h.step hi ⟨List.prefix_rfl, Nat.le_refl _, fun _ _ ↦ rfl⟩ (h.sole.keep hi fun _ ↦ rfl) trivial
      (fun _ ↦ .inl) fun _ hl ↦ by cases hl⟩
  | mail op =>
    obtain ⟨hanswers, rfl⟩ := act_mail ha
    refine ⟨hanswers, ?_⟩
    change Inv _ (ls.set i (if lists op r = true then l.list else l) ++ [])
    cases l with
    | fetching msgId listed =>
      split
      · have hg : Grows s (s.list i) i := ⟨List.prefix_rfl, Nat.le_max_left _ _, fun _ _ ↦ rfl⟩
        have hcovered : Covered (s.list i) msgId := mem_take hknows.1 List.prefix_rfl (Nat.le_max_right _ _)
        refine h.step hi hg (h.sole.keep hi fun _ ↦ rfl) ⟨hknows.1, fun _ ↦ hcovered⟩ (fun _ ↦ .inl) fun m hm ↦ .inl ?_
        cases listed with
        | true => cases hm
        | false =>
          obtain rfl : msgId = m := Option.some.inj hm
          exact hcovered
      · exact h.step hi (.same s) (h.sole.keep hi id) hknows (fun _ ↦ .inl) fun _ ↦ .inr
    | _ => cases hallow
  | release =>
    cases ha
    obtain rfl : l = .finished := hallow
    exact ⟨trivial, h.step hi ⟨List.prefix_rfl, Nat.le_refl _, fun _ _ ↦ rfl⟩
      (h.sole.release hi rfl (by simp [disc, Stage.holds])) trivial (fun _ ↦ .inl) fun _ hl ↦ by cases hl⟩
  | releaseInHandler => exact hallow.1.elim

def outline (P : Platform) : Outline (machine P succeeds) Guard.free Stage where
  disc := listing
  final _ := True
  entryLocal _ := .idle
  spawnLocal := spawnStage
  inv := Inv
  entry_wp _ x _ := entry_wp x
  spawn_wp _ _ op p _ hp := by
    cases op with
    | launch msgId =>
      obtain rfl := Option.some.inj hp
      exact fetchCoroutine_wp fetch_wp
    | _ => cases hp
  inv_start s ls x _ h := by
    refine ⟨h.sole.append (by simp [Stage.holds]), fun i l hi ↦ ?_, fun msgId hmem ↦ ?_⟩
    · rw [List.getElem?_append] at hi
      split at hi
      · exact h.knows i l hi
      · rw [List.mem_singleton.mp (List.mem_of_getElem? hi)]
        trivial
    · exact (h.due msgId hmem).imp_right fun ⟨i, l, hi, hl⟩ ↦ ⟨i, l, getElem?_append_of_some hi, hl⟩
  inv_call s ls i l op offer r s' hi hallow _ ha h := inv_call hi hallow ha h

abbrev listed (thread times : ℕ) : List (Label monitorSig Input) := calls (.ok []) thread times

def first : List (Label monitorSig Input) :=
  [.start (.arrival "m1".toList)] ++ listed 0 1 ++ [.start (.notification "m1".toList)] ++ listed 1 4 ++ listed 2 5

/-- The notification of a second e-mail comes before the fetch of the first has ended. -/
def skipping : List (Label monitorSig Input) :=
  first ++ [.start (.arrival "m2".toList)] ++ listed 3 1 ++ [.start (.notification "m2".toList)] ++ listed 4 3 ++
    listed 2 2

abbrev sample : Machine monitorSig Throwable Shared Input := machine asciiPlatform succeeds

end Aigentik.WakeUps
