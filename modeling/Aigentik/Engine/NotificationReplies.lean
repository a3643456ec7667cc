import Aigentik.Engine.NotificationThreads

namespace Aigentik.NotificationReplies

open Strings Effects MessageEngine NotificationReplyRouter Pipeline NotificationThreads

variable (P : Platform) (cfg : EngineConfig) (stackDepth : ℕ)

/-- Two notifications of different senders share neither the id of their messages nor their key. -/
def Distinct (p q : Posting) : Prop :=
  p.sender ≠ q.sender → postingId p ≠ postingId q ∧ p.sbn.key ≠ q.sbn.key

instance (p q : Posting) : Decidable (Distinct p q) :=
  inferInstanceAs (Decidable (_ → _))

def distinguishes (s : Shared) : SystemOp → Bool
  | .listener (.resolved sbn sender text) => s.postings.all fun p ↦ Distinct p ⟨sbn, sender, text⟩
  | _ => true

/-- No notification comes in that could be taken for one of another sender. -/
def distinctSenders : Guard systemSig Shared Input where
  start _ _ := True
  call s _ op := distinguishes s op = true

/-- What the notifications tell of a thread. -/
def Known (postings : List Posting) : Local → Prop
  | .plain => True
  | .posted p => p ∈ postings
  | .waiting m | .handling m => Own postings m
  | .keyed m k => Own postings m ∧ ∃ p ∈ postings, p.sbn.key = k ∧ p.sender = m.sender
  | .found m e => Own postings m ∧ ∃ p ∈ postings, postedEntry p = e ∧ p.sender = m.sender

/-- The reply action belongs to a notification of the sender. -/
def FiredFor (postings : List Posting) (sender : Str) (e : ReplyEntry) : Prop :=
  (∃ p ∈ postings, postedEntry p = e ∧ p.sender = sender) ∧ ∀ p ∈ postings, postedEntry p = e → p.sender = sender

structure Inv (s : Shared) (ls : List Local) : Prop where
  distinct : ∀ p ∈ s.postings, ∀ q ∈ s.postings, Distinct p q
  ids : ∀ k sbnKey, s.replyIds.get k = some sbnKey →
    ∃ p ∈ s.postings, postingId p = k ∧ p.sbn.key = sbnKey
  entries : ∀ k e, s.replyEntries.get k = some e → ∃ p ∈ s.postings, p.sbn.key = k ∧ postedEntry p = e
  running : Tracks Local.Knows s ls
  known : ∀ (i : ℕ) l, ls[i]? = some l → Known s.postings l
  fired : ∀ h m e, (some (h, m), e) ∈ s.fired → ∃ p ∈ s.postings, postedEntry p = e ∧ p.sender = m.sender

variable {P} {cfg} {l l' : Local} {m : Message} {s s' : Shared} {ls new : List Local} {i : ℕ}
  {postings postings' : List Posting}

theorem Own.mono (h : Own postings m) (hsub : postings ⊆ postings') : Own postings' m := by
  intro hm
  obtain ⟨p, hp, hown⟩ := h hm
  exact ⟨p, hsub hp, hown⟩

theorem Known.own (h : Known postings l) (hl : l.message = some m) : Own postings m := by
  cases l with
  | handling m' =>
    cases hl
    exact h
  | keyed m' k =>
    cases hl
    exact h.1
  | found m' e =>
    cases hl
    exact h.1
  | _ => cases hl

theorem Known.mono (h : Known postings l) (hsub : postings ⊆ postings') : Known postings' l := by
  cases l with
  | plain => trivial
  | posted p => exact hsub h
  | waiting m => exact Own.mono h hsub
  | handling m => exact Own.mono h hsub
  | keyed m k =>
    obtain ⟨hown, p, hp, hk⟩ := h
    exact ⟨Own.mono hown hsub, p, hsub hp, hk⟩
  | found m e =>
    obtain ⟨hown, p, hp, he⟩ := h
    exact ⟨Own.mono hown hsub, p, hsub hp, he⟩

/-- Notifications that share their id or their key come from one sender. -/
theorem Inv.sender_eq (h : Inv s ls) {p q : Posting} (hp : p ∈ s.postings) (hq : q ∈ s.postings)
    (heq : postingId p = postingId q ∨ p.sbn.key = q.sbn.key) : p.sender = q.sender := by
  by_contra hne
  obtain ⟨hid, hkey⟩ := h.distinct p hp q hq hne
  exact heq.elim hid hkey

theorem Inv.update (h : Inv s ls) (hpostings : s'.postings = s.postings) (hfired : s'.fired = s.fired)
    (hids : ∀ k v, s'.replyIds.get k = some v →
      s.replyIds.get k = some v ∨ ∃ p ∈ s.postings, postingId p = k ∧ p.sbn.key = v)
    (hentries : ∀ k e, s'.replyEntries.get k = some e →
      s.replyEntries.get k = some e ∨ ∃ p ∈ s.postings, p.sbn.key = k ∧ postedEntry p = e)
    (htracks : Tracks Local.Knows s' (ls.set i l' ++ new)) (hl' : Known s.postings l')
    (hnew : ∀ x ∈ new, Known s.postings x) : Inv s' (ls.set i l' ++ new) where
  distinct := hpostings ▸ h.distinct
  ids k v hk := by
    rw [hpostings]
    exact (hids k v hk).elim (h.ids k v) id
  entries k e hk := by
    rw [hpostings]
    exact (hentries k e hk).elim (h.entries k e) id
  running := htracks
  known j x hx := by
    rw [hpostings]
    rcases getElem?_step hx with ⟨-, rfl⟩ | ⟨-, hx⟩ | ⟨-, hx⟩
    · exact hl'
    · exact h.known j x hx
    · exact hnew x hx
  fired handler m e he := by
    rw [hpostings]
    exact h.fired handler m e (hfired ▸ he)

/-- A step that concerns neither the notifications nor the replies to them. -/
theorem Inv.idle (h : Inv s ls) (hpostings : s'.postings = s.postings) (hfired : s'.fired = s.fired)
    (hids : s'.replyIds = s.replyIds) (hentries : s'.replyEntries = s.replyEntries)
    (htracks : Tracks Local.Knows s' (ls.set i l' ++ new)) (hl' : Known s.postings l')
    (hnew : ∀ x ∈ new, Known s.postings x) : Inv s' (ls.set i l' ++ new) :=
  h.update hpostings hfired (fun _ _ hk ↦ .inl (hids ▸ hk)) (fun _ _ hk ↦ .inl (hentries ▸ hk)) htracks hl'
    hnew

theorem Inv.engine_call {op : EngineOp} {offer r : engineSig.Resp op} (h : Inv s ls)
    (hi : ls[i]? = some l) (hallow : disc.allow l (.engine op))
    (hact : Pipeline.act P i (.engine op) offer s = some (r, s'))
    (htracks : Tracks Local.Knows s'
      (ls.set i (disc.next l (.engine op) r) ++ launched .plain (fun _ ↦ Local.waiting) (.engine op))) :
    Inv s' (ls.set i (disc.next l (.engine op) r) ++
      launched .plain (fun _ ↦ Local.waiting) (.engine op)) := by
  obtain ⟨⟨r', engine⟩, hengine, heq⟩ := Option.map_eq_some_iff.mp hact
  cases heq
  have hl : Known s.postings l := h.known i l hi
  rcases op with op | op | op
  · exact h.idle rfl rfl rfl rfl htracks hl (by simp [launched])
  · exact h.idle rfl rfl rfl rfl htracks hl (by simp [launched])
  · cases op with
    | launch task =>
      refine h.idle rfl rfl rfl rfl htracks hl fun x hx ↦ ?_
      have hx' : x = .waiting (taskMessage task) := by
        rw [List.mem_singleton.mp hx]
        match task with
        | .login m => rfl
        | .queued m true => rfl
        | .queued m false => rfl
      subst hx'
      intro hm
      obtain ⟨p, rfl, hid, hsender⟩ := hallow hm
      exact ⟨p, hl, hid, hsender⟩
    | begin handler m =>
      obtain rfl : l = .waiting m := hallow
      exact h.idle rfl rfl rfl rfl htracks hl (by simp [launched])
    | finish handler => exact h.idle rfl rfl rfl rfl htracks trivial (by simp [launched])
    | _ => exact h.idle rfl rfl rfl rfl htracks hl (by simp [launched])

theorem Inv.ids_call {op : MapOp Str Str} {offer r : (mapSig Str Str).Resp op} (h : Inv s ls)
    (hi : ls[i]? = some l) (hallow : disc.allow l (.listener (.router (.ids op))))
    (hact : Pipeline.act P i (.listener (.router (.ids op))) offer s = some (r, s'))
    (htracks : Tracks Local.Knows s'
      (ls.set i (disc.next l (.listener (.router (.ids op))) r) ++ [])) :
    Inv s' (ls.set i (disc.next l (.listener (.router (.ids op))) r) ++ []) := by
  obtain ⟨⟨r', ids⟩, hmap, heq⟩ := Option.map_eq_some_iff.mp hact
  cases heq
  have hl : Known s.postings l := h.known i l hi
  cases op with
  | get k =>
    cases hmap
    have hlooked : Known s.postings (l.keyLooked (s.replyIds.get k)) := by
      cases hget : s.replyIds.get k with
      | none => exact hl
      | some sbnKey =>
        cases hm : l.message with
        | none =>
          rw [keyLooked_of_none hm]
          exact hl
        | some m =>
          have hown : Own s.postings m := hl.own hm
          obtain ⟨rfl, hchannel⟩ := hallow m hm
          obtain ⟨p, hp, hid, hsender⟩ := hown hchannel
          obtain ⟨q, hq, hqid, hkey⟩ := h.ids _ _ hget
          simp only [Local.keyLooked, hm]
          exact ⟨hown, q, hq, hkey, (h.sender_eq hq hp (.inl (hqid.trans hid.symm))).trans hsender⟩
    exact h.idle rfl rfl rfl rfl htracks hlooked (by simp)
  | put k v =>
    obtain ⟨p, rfl, rfl, rfl⟩ := hallow
    refine h.update rfl rfl (fun k' v' hk ↦ ?_) (fun _ _ ↦ .inl) htracks hl (by simp)
    refine (SharedMap.get_of_act hmap hk).imp_right fun heq ↦ ?_
    cases heq
    exact ⟨p, hl, rfl, rfl⟩
  | _ =>
    refine h.update rfl rfl (fun k' v' hk ↦ .inl ?_) (fun _ _ ↦ .inl) htracks hl (by simp)
    exact (SharedMap.get_of_act hmap hk).resolve_right (by simp)

theorem Inv.entries_call {op : MapOp Str ReplyEntry} {offer r : (mapSig Str ReplyEntry).Resp op}
    (h : Inv s ls) (hi : ls[i]? = some l) (hallow : disc.allow l (.listener (.router (.entries op))))
    (hact : Pipeline.act P i (.listener (.router (.entries op))) offer s = some (r, s'))
    (htracks : Tracks Local.Knows s'
      (ls.set i (disc.next l (.listener (.router (.entries op))) r) ++ [])) :
    Inv s' (ls.set i (disc.next l (.listener (.router (.entries op))) r) ++ []) := by
  obtain ⟨⟨r', entries⟩, hmap, heq⟩ := Option.map_eq_some_iff.mp hact
  cases heq
  have hl : Known s.postings l := h.known i l hi
  cases op with
  | get k =>
    cases hmap
    have hlooked : Known s.postings (l.entryLooked (s.replyEntries.get k)) := by
      cases hget : s.replyEntries.get k with
      | none =>
        cases l <;> exact hl
      | some e =>
        rcases hallow with hm | ⟨m, rfl⟩
        · rw [entryLooked_of_none hm]
          exact hl
        · obtain ⟨hown, p, hp, hkey, hsender⟩ := hl
          obtain ⟨q, hq, hqkey, he⟩ := h.entries _ _ hget
          exact ⟨hown, q, hq, he, (h.sender_eq hq hp (.inr (hqkey.trans hkey.symm))).trans hsender⟩
    exact h.idle rfl rfl rfl rfl htracks hlooked (by simp)
  | put k e =>
    obtain ⟨p, rfl, rfl, rfl⟩ := hallow
    refine h.update rfl rfl (fun _ _ ↦ .inl) (fun k' e' hk ↦ ?_) htracks hl (by simp)
    refine (SharedMap.get_of_act hmap hk).imp_right fun heq ↦ ?_
    cases heq
    exact ⟨p, hl, rfl, rfl⟩
  | _ =>
    refine h.update rfl rfl (fun _ _ ↦ .inl) (fun k' e' hk ↦ .inl ?_) htracks hl (by simp)
    exact (SharedMap.get_of_act hmap hk).resolve_right (by simp)

/-- The reply action that is fired in a handler is one of its message's sender. -/
theorem Inv.fire (h : Inv s ls) (hi : ls[i]? = some l) {e : ReplyEntry}
    (hallow : l.message = none ∨ ∃ m, l = .found m e)
    (htracks : Tracks Local.Knows { s with fired := s.fired ++ [(s.handling i, e)] } (ls.set i l ++ [])) :
    Inv { s with fired := s.fired ++ [(s.handling i, e)] } (ls.set i l ++ []) where
  distinct := h.distinct
  ids := h.ids
  entries := h.entries
  running := htracks
  known j x hx := by
    rcases getElem?_step hx with ⟨-, rfl⟩ | ⟨-, hx⟩ | ⟨-, hx⟩
    · exact h.known i _ hi
    · exact h.known j x hx
    · cases hx
  fired handler m e' he := by
    rcases List.mem_append.mp he with he | he
    · exact h.fired handler m e' he
    · obtain ⟨hhandling, rfl⟩ := Prod.mk.inj (List.mem_singleton.mp he)
      have hm : l.message = some m := h.running.known hi hhandling.symm
      rcases hallow with hnone | ⟨m', rfl⟩
      · simp [hm] at hnone
      · cases hm
        obtain ⟨-, hfound⟩ := h.known i _ hi
        exact hfound

theorem Inv.post (h : Inv s ls) {p : Posting} (hp : ∀ q ∈ s.postings, Distinct q p)
    (htracks : Tracks Local.Knows { s with postings := s.postings ++ [p] } (ls.set i (.posted p) ++ [])) :
    Inv { s with postings := s.postings ++ [p] } (ls.set i (.posted p) ++ []) := by
  have hsub : s.postings ⊆ s.postings ++ [p] := List.subset_append_left _ _
  refine ⟨fun q hq q' hq' ↦ ?_, fun k v hk ↦ ?_, fun k e hk ↦ ?_, htracks, fun j x hx ↦ ?_, fun o m e he ↦ ?_⟩
  · rcases List.mem_append.mp hq with hq | hq <;> rcases List.mem_append.mp hq' with hq' | hq'
    · exact h.distinct q hq q' hq'
    · rw [List.mem_singleton.mp hq']
      exact hp q hq
    · rw [List.mem_singleton.mp hq]
      exact fun hne ↦ (hp q' hq' hne.symm).imp Ne.symm Ne.symm
    · rw [List.mem_singleton.mp hq, List.mem_singleton.mp hq']
      exact fun hne ↦ absurd rfl hne
  · obtain ⟨q, hq, hids⟩ := h.ids k v hk
    exact ⟨q, hsub hq, hids⟩
  · obtain ⟨q, hq, hentries⟩ := h.entries k e hk
    exact ⟨q, hsub hq, hentries⟩
  · rcases getElem?_step hx with ⟨-, rfl⟩ | ⟨-, hx⟩ | ⟨-, hx⟩
    · exact List.mem_append_right _ (List.mem_singleton_self p)
    · exact (h.known j x hx).mono hsub
    · cases hx
  · obtain ⟨q, hq, hfired⟩ := h.fired o m e he
    exact ⟨q, hsub hq, hfired⟩

theorem Inv.call {op : SystemOp} {offer r : systemSig.Resp op} (h : Inv s ls) (hi : ls[i]? = some l)
    (hallow : disc.allow l op) (hG : distinctSenders.call s i op)
    (hact : Pipeline.act P i op offer s = some (r, s')) :
    Inv s' (ls.set i (disc.next l op r) ++ launched .plain (fun _ ↦ Local.waiting) op) := by
  have htracks : Tracks Local.Knows s'
      (ls.set i (disc.next l op r) ++ launched .plain (fun _ ↦ Local.waiting) op) :=
    h.running.step hi hact (follows hallow)
  have hl : Known s.postings l := h.known i l hi
  rcases op with op | op | op
  · exact h.engine_call hi hallow hact htracks
  · cases op with
    | router op =>
      cases op with
      | gvoiceContext op =>
        obtain ⟨_, -, heq⟩ := Option.map_eq_some_iff.mp hact
        cases heq
        exact h.idle rfl rfl rfl rfl htracks hl (by simp [launched])
      | emailContext op =>
        obtain ⟨_, -, heq⟩ := Option.map_eq_some_iff.mp hact
        cases heq
        exact h.idle rfl rfl rfl rfl htracks hl (by simp [launched])
      | launchReply reply =>
        cases hact
        refine h.idle rfl rfl rfl rfl htracks hl fun x hx ↦ ?_
        rw [List.mem_singleton.mp hx]
        trivial
      | _ =>
        cases hact
        exact h.idle rfl rfl rfl rfl htracks hl (by simp [launched])
    | _ =>
      cases hact
      exact h.idle rfl rfl rfl rfl htracks hl (by simp [launched])
  · cases op with
    | router op =>
      cases op with
      | ids op => exact h.ids_call hi hallow hact htracks
      | entries op => exact h.entries_call hi hallow hact htracks
      | fire e key text =>
        cases hact
        cases offer with
        | true => exact h.fire hi hallow htracks
        | false => exact h.idle rfl rfl rfl rfl htracks hl (by simp [launched])
      | _ =>
        cases hact
        exact h.idle rfl rfl rfl rfl htracks hl (by simp [launched])
    | resolved sbn sender text =>
      cases hact
      refine h.post (fun q hq ↦ ?_) htracks
      exact of_decide_eq_true (List.all_eq_true.mp hG q hq)
    | _ =>
      cases hact
      exact h.idle rfl rfl rfl rfl htracks hl (by simp [launched])

variable (P cfg)

def outline : Outline (machine P cfg stackDepth) distinctSenders Local where
  disc := disc
  final _ := True
  entryLocal _ := .plain
  spawnLocal := spawnLocal .plain fun _ ↦ Local.waiting
  inv := Inv
  entry_wp _ input _ := entry_wp input
  spawn_wp _ _ _ _ _ := spawn_wp
  inv_start s ls input _ h := by
    refine ⟨h.distinct, h.ids, h.entries, h.running.append, fun j l hl ↦ ?_, h.fired⟩
    rw [List.getElem?_append] at hl
    split at hl
    · exact h.known j l hl
    · obtain rfl := List.mem_singleton.mp (List.mem_of_getElem? hl)
      trivial
  inv_call s ls i l op offer r s' hi hallow hG hact h := by
    refine ⟨trivial, ?_⟩
    change Inv s' (_ ++ ((spawned P cfg stackDepth op).map fun _ ↦
      spawnLocal .plain (fun _ ↦ Local.waiting) op).toList)
    rw [launched_eq]
    exact h.call hi hallow hG hact

def textFrom (title key : Str) : AigentikNotificationListener.StatusBarNotification :=
  ⟨"com.google.android.apps.messaging", key,
    ⟨false, some ⟨some title, none, some "ok"⟩, some [⟨some [⟨"reply_text"⟩]⟩]⟩⟩

/-- One notification is posted, and its message handled. -/
def alone : List (Label systemSig Input) :=
  [.start (.posted (textFrom "Alice" "k1"))] ++ steps 0 14 ++ steps 1 18

/-- A second notification is posted before the message of the first is handled. -/
def overtaken : List (Label systemSig Input) :=
  [.start (.posted (textFrom "Alice" "k1")), .start (.posted (textFrom "Bob" "k2"))] ++
    steps 0 14 ++ steps 1 9 ++ steps 2 10

/-- The reply actions fired: the sender of the message, and of the notifications they belong to. -/
abbrev senders (c : Configuration) : List (Option Str × List Str) :=
  c.shared.fired.map fun f ↦
    (f.1.map fun h ↦ h.2.sender, (c.shared.postings.filter fun p ↦ postedEntry p = f.2).map Posting.sender)

end Aigentik.NotificationReplies
