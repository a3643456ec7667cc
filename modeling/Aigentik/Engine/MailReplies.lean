import Aigentik.Engine.MailContexts

namespace Aigentik.MailReplies

open Strings Effects MessageEngine GmailApiClient EmailRouter EmailMonitor Pipeline MailContexts

variable (P : Platform) (cfg : EngineConfig) (stackDepth : ℕ)

/-- What the contexts tell of a thread, with those it saw when it looked last. -/
def Known (contexts looked : List Context) : Local → Prop
  | .plain => True
  | .stored c => c ∈ contexts
  | .waiting m | .handling m => OnMail m → ∃ own ∈ contexts, Builds m own
  | .missed m => ∃ email, .email email ∈ contexts ∧ Builds m (.email email)
  | .lost m => ∃ own ∈ looked, Builds m own ∧ ¬Clear looked own
  | .found m e => ∃ own ∈ looked, Builds m own ∧
    (Clear looked own → ∃ target, latest P looked (contextKey P own) = some target ∧ original target = e)

def few (s : Shared) : SystemOp → Bool
  | .mail (.router (.gvoiceContext (.put k gvm))) => (s.gvoiceContext.put k gvm).size ≤ 200
  | .mail (.router (.emailContext (.put k email))) => (s.emailContext.put k email).size ≤ 200
  | _ => true

/-- No step stores a sender beyond the 200th of a map. -/
def fewSenders : Guard systemSig Shared Input where
  start _ _ := True
  call s _ op := few s op = true

structure Inv (s : Shared) (ls : List Local) : Prop where
  gvoice : ∀ k gvm, s.gvoiceContext.get k = some gvm ↔
    latest P s.contexts (.gvoice k) = some (.gvoice gvm)
  email : ∀ k email, s.emailContext.get k = some email ↔
    latest P s.contexts (.email k) = some (.email email)
  size : s.gvoiceContext.size ≤ 200 ∧ s.emailContext.size ≤ 200
  looked : ∀ i, s.looked i <+: s.contexts
  running : Tracks Local.Knows s ls
  known : ∀ i l, ls[i]? = some l → Known P s.contexts (s.looked i) l
  replies : ∀ r ∈ s.replies, r.contexts <+: s.contexts ∧
    ∀ m, r.handling = some (.publicMessage, m) → Routed P m r

variable {P} {cfg} {l : Local}

theorem Known.mono {contexts contexts' looked : List Context}
    (h : Known P contexts looked l) (hsub : contexts ⊆ contexts') : Known P contexts' looked l := by
  cases l with
  | plain => trivial
  | stored c => exact hsub h
  | waiting m =>
    intro hm
    obtain ⟨own, hown, hbuilds⟩ := h hm
    exact ⟨own, hsub hown, hbuilds⟩
  | handling m =>
    intro hm
    obtain ⟨own, hown, hbuilds⟩ := h hm
    exact ⟨own, hsub hown, hbuilds⟩
  | missed m =>
    obtain ⟨e, he, hbuilds⟩ := h
    exact ⟨e, hsub he, hbuilds⟩
  | lost m => exact h
  | found m e => exact h

variable {s s' : Shared} {ls new : List Local} {i : ℕ} {l' : Local}

theorem Inv.update (h : Inv P s ls)
    (hg : s'.gvoiceContext = s.gvoiceContext) (he : s'.emailContext = s.emailContext)
    (hc : s'.contexts = s.contexts) (hlooked : ∀ j, j ≠ i → s'.looked j = s.looked j)
    (hlooked' : s'.looked i <+: s.contexts) (htracks : Tracks Local.Knows s' (ls.set i l' ++ new))
    (hl' : Known P s.contexts (s'.looked i) l')
    (hnew : ∀ x ∈ new, ∀ looked, Known P s.contexts looked x)
    (hreplies : ∀ r ∈ s'.replies, r ∈ s.replies ∨ (r.contexts <+: s.contexts ∧
      ∀ m, r.handling = some (.publicMessage, m) → Routed P m r)) :
    Inv P s' (ls.set i l' ++ new) where
  gvoice := hc ▸ hg ▸ h.gvoice
  email := hc ▸ he ▸ h.email
  size := hg ▸ he ▸ h.size
  looked j := by
    rw [hc]
    by_cases hj : j = i
    · exact hj ▸ hlooked'
    · exact hlooked j hj ▸ h.looked j
  running := htracks
  known j x hx := by
    rw [hc]
    rcases getElem?_step hx with ⟨rfl, rfl⟩ | ⟨hj, hx⟩ | ⟨-, hx⟩
    · exact hl'
    · exact hlooked j hj ▸ h.known j x hx
    · exact hnew x hx _
  replies r hr := by
    rw [hc]
    rcases hreplies r hr with hr | hr
    · exact h.replies r hr
    · exact hr

/-- A step that concerns neither the contexts nor the replies. -/
theorem Inv.idle (h : Inv P s ls) (hi : ls[i]? = some l) (hg : s'.gvoiceContext = s.gvoiceContext)
    (he : s'.emailContext = s.emailContext) (hc : s'.contexts = s.contexts)
    (hlooked : s'.looked = s.looked) (htracks : Tracks Local.Knows s' (ls.set i l ++ new))
    (hreplies : s'.replies = s.replies) (hnew : ∀ x ∈ new, ∀ looked, Known P s.contexts looked x) :
    Inv P s' (ls.set i l ++ new) :=
  h.update hg he hc (fun _ _ ↦ hlooked ▸ rfl) (hlooked ▸ h.looked i) htracks
    (hlooked ▸ h.known i l hi) hnew fun _ hr ↦ .inl (hreplies ▸ hr)

theorem Inv.engine_call {op : EngineOp} {offer r : engineSig.Resp op} (h : Inv P s ls)
    (hi : ls[i]? = some l) (hallow : (disc P).allow l (.engine op))
    (hact : Pipeline.act P i (.engine op) offer s = some (r, s'))
    (htracks : Tracks Local.Knows s'
      (ls.set i ((disc P).next l (.engine op) r) ++ launched .plain Local.awaiting (.engine op))) :
    Inv P s' (ls.set i ((disc P).next l (.engine op) r) ++ launched .plain Local.awaiting (.engine op)) := by
  obtain ⟨⟨r', engine⟩, hengine, heq⟩ := Option.map_eq_some_iff.mp hact
  cases heq
  rcases op with op | op | op
  · exact h.idle hi rfl rfl rfl rfl htracks rfl (by simp [launched])
  · exact h.idle hi rfl rfl rfl rfl htracks rfl (by simp [launched])
  · cases op with
    | launch task =>
      refine h.idle hi rfl rfl rfl rfl htracks rfl fun x hx looked ↦ ?_
      obtain rfl : x = spawnLocal .plain Local.awaiting (.engine (.sync (.launch task))) := by
        simpa [launched] using hx
      match task with
      | .login m => trivial
      | .queued m true => trivial
      | .queued m false =>
        intro hm
        obtain ⟨c, rfl, hc⟩ := hallow hm
        exact ⟨c, h.known i _ hi, hc⟩
    | begin handler m =>
      have hl' : Known P s.contexts (s.looked i) ((disc P).next l (.engine (.sync (.begin handler m))) r) := by
        cases handler with
        | admin =>
          obtain rfl : l = .plain := hallow
          trivial
        | publicMessage =>
          obtain rfl : l = .waiting m := hallow
          exact h.known i (.waiting m) hi
      exact h.update rfl rfl rfl (fun _ _ ↦ rfl) (h.looked i) htracks hl' (by simp [launched])
        fun _ hr ↦ .inl hr
    | finish handler =>
      exact h.update rfl rfl rfl (fun _ _ ↦ rfl) (h.looked i) htracks trivial (by simp [launched])
        fun _ hr ↦ .inl hr
    | _ => exact h.idle hi rfl rfl rfl rfl htracks rfl (by simp [launched])

theorem Inv.store (h : Inv P s ls) {c : Context}
    (hc : s'.contexts = s.contexts ++ [c])
    (hg : ∀ k gvm, s'.gvoiceContext.get k = some gvm ↔
      latest P (s.contexts ++ [c]) (.gvoice k) = some (.gvoice gvm))
    (he : ∀ k email, s'.emailContext.get k = some email ↔
      latest P (s.contexts ++ [c]) (.email k) = some (.email email))
    (hsize : s'.gvoiceContext.size ≤ 200 ∧ s'.emailContext.size ≤ 200) (hlooked : s'.looked = s.looked)
    (htracks : Tracks Local.Knows s' (ls.set i (.stored c) ++ [])) (hreplies : s'.replies = s.replies) :
    Inv P s' (ls.set i (.stored c) ++ []) := by
  have hpre : s.contexts <+: s'.contexts := hc ▸ List.prefix_append _ _
  refine ⟨hc ▸ hg, hc ▸ he, hsize, fun j ↦ ?_, htracks, fun j x hx ↦ ?_, fun r hr ↦ ?_⟩
  · rw [hlooked]
    exact (h.looked j).trans hpre
  · rw [hlooked]
    rcases getElem?_step hx with ⟨-, rfl⟩ | ⟨-, hx⟩ | ⟨-, hx⟩
    · show c ∈ s'.contexts
      simp [hc]
    · exact (h.known j x hx).mono hpre.subset
    · cases hx
  · rw [hreplies] at hr
    exact ⟨(h.replies r hr).1.trans hpre, (h.replies r hr).2⟩

theorem eq_gvoice {c : Context} {k : Str} (h : contextKey P c = .gvoice k) :
    ∃ gvm, c = .gvoice gvm ∧ gvoiceKey gvm.senderPhone = k := by
  cases c with
  | gvoice gvm => exact ⟨gvm, rfl, Key.gvoice.inj h⟩
  | email e => cases h

theorem eq_email {c : Context} {k : Str} (h : contextKey P c = .email k) :
    ∃ e, c = .email e ∧ emailKey P e.fromEmail = k := by
  cases c with
  | gvoice gvm => cases h
  | email e => exact ⟨e, rfl, Key.email.inj h⟩

theorem Inv.gvoice_looked (h : Inv P s ls) {m : Message} (hi : ls[i]? = some (.handling m))
    (hm : OnMail m) (hne : gvoiceKey m.sender ≠ []) :
    Known P s.contexts s.contexts
      (Local.gvoiceLooked (.handling m) (s.gvoiceContext.get (gvoiceKey m.sender))) := by
  obtain ⟨own, hown, hbuilds⟩ := h.known i _ hi hm
  cases hget : s.gvoiceContext.get (gvoiceKey m.sender) with
  | some gvm =>
    have hlatest := (h.gvoice _ gvm).mp hget
    refine ⟨own, hown, hbuilds, fun hclear ↦ ?_⟩
    cases own with
    | gvoice g =>
      rw [hbuilds.sender_gvoice] at hlatest
      exact ⟨_, hlatest, rfl⟩
    | email e =>
      obtain ⟨hmem, hkey⟩ := latest_mem hlatest
      have heq : gvoiceKey gvm.senderPhone = gvoiceKey e.fromEmail := by
        rw [← hbuilds.sender_email]
        exact Key.gvoice.inj hkey
      rcases hclear with hnil | hclear
      · rw [hbuilds.sender_email] at hne
        exact absurd hnil hne
      · exact absurd heq (hclear gvm hmem)
  | none =>
    cases own with
    | email e => exact ⟨e, hown, hbuilds⟩
    | gvoice g =>
      obtain ⟨c, hc⟩ := Option.isSome_iff_exists.mp (latest_isSome (P := P) hown)
      obtain ⟨gvm, rfl, -⟩ := eq_gvoice (latest_mem hc).2
      rw [contextKey, ← hbuilds.sender_gvoice] at hc
      have hsome := (h.gvoice _ gvm).mpr hc
      rw [hget] at hsome
      cases hsome

theorem Inv.email_looked (h : Inv P s ls) {m : Message} (hi : ls[i]? = some l)
    (hl : l = .missed m ∨ (l = .handling m ∧ OnMail m ∧ gvoiceKey m.sender = [])) :
    Known P s.contexts s.contexts (l.emailLooked (s.emailContext.get (emailKey P m.sender))) := by
  have hown : ∃ own ∈ s.contexts, Builds m own ∧
      ((∃ e, own = .email e) ∨ ¬Clear s.contexts own) := by
    rcases hl with rfl | ⟨rfl, hm, hnil⟩
    · obtain ⟨e, he, hbuilds⟩ := h.known i _ hi
      exact ⟨_, he, hbuilds, .inl ⟨e, rfl⟩⟩
    · obtain ⟨own, hown, hbuilds⟩ := h.known i _ hi hm
      refine ⟨own, hown, hbuilds, ?_⟩
      cases own with
      | email e => exact .inl ⟨e, rfl⟩
      | gvoice g => exact .inr fun hclear ↦ hclear (hbuilds.sender_gvoice ▸ hnil)
  have hnext (r : Option ParsedEmail) : l.emailLooked r = match r with
      | some e => .found m e
      | none => .lost m := by
    rcases hl with rfl | ⟨rfl, -⟩ <;> cases r <;> rfl
  obtain ⟨own, hmem, hbuilds, hkind⟩ := hown
  rw [hnext]
  cases hget : s.emailContext.get (emailKey P m.sender) with
  | some e =>
    have hlatest := (h.email _ e).mp hget
    refine ⟨own, hmem, hbuilds, fun hclear ↦ ?_⟩
    rcases hkind with ⟨o, rfl⟩ | hkind
    · rw [hbuilds.sender_email] at hlatest
      exact ⟨_, hlatest, rfl⟩
    · exact absurd hclear hkind
  | none =>
    refine ⟨own, hmem, hbuilds, ?_⟩
    rcases hkind with ⟨o, rfl⟩ | hkind
    · obtain ⟨c, hc⟩ := Option.isSome_iff_exists.mp (latest_isSome (P := P) hmem)
      obtain ⟨e, rfl, -⟩ := eq_email (latest_mem hc).2
      rw [contextKey, ← hbuilds.sender_email] at hc
      have hsome := (h.email _ e).mpr hc
      rw [hget] at hsome
      cases hsome
    · exact hkind

theorem Known.looked {contexts looked looked' : List Context} (h : Known P contexts looked l)
    (hl : l.message = none) : Known P contexts looked' l := by
  cases l <;> first | exact h | cases hl

/-- A lookup changes nothing but what its thread knows. -/
theorem Inv.look (h : Inv P s ls) (htracks : Tracks Local.Knows (s.note i true []) (ls.set i l' ++ []))
    (hl' : Known P s.contexts s.contexts l') : Inv P (s.note i true []) (ls.set i l' ++ []) := by
  have hc : (s.note i true []).contexts = s.contexts := List.append_nil _
  have hself : (s.note i true []).looked i = s.contexts := Function.update_self ..
  exact h.update rfl rfl hc (fun j hj ↦ Function.update_of_ne hj ..) (hself ▸ List.prefix_rfl) htracks
    (hself ▸ hl') (by simp) fun _ hr ↦ .inl hr

theorem gvoiceLooked_of_none (hl : l.message = none) (r : Option GoogleVoiceMessage) :
    l.gvoiceLooked r = l := by
  cases l <;> first | rfl | cases hl

theorem emailLooked_of_none (hl : l.message = none) (r : Option ParsedEmail) :
    l.emailLooked r = l := by
  cases l <;> first | rfl | cases hl

theorem Inv.gvoice_call {op : MapOp Str GoogleVoiceMessage} {offer r : (mapSig Str GoogleVoiceMessage).Resp op}
    (h : Inv P s ls) (hi : ls[i]? = some l)
    (hallow : (disc P).allow l (.mail (.router (.gvoiceContext op))))
    (hG : fewSenders.call s i (.mail (.router (.gvoiceContext op))))
    (hact : Pipeline.act P i (.mail (.router (.gvoiceContext op))) offer s = some (r, s'))
    (htracks : Tracks Local.Knows s'
      (ls.set i ((disc P).next l (.mail (.router (.gvoiceContext op))) r) ++ [])) :
    (disc P).may l (.mail (.router (.gvoiceContext op))) r ∧
      Inv P s' (ls.set i ((disc P).next l (.mail (.router (.gvoiceContext op))) r) ++ []) := by
  obtain ⟨⟨r', m'⟩, hmap, heq⟩ := Option.map_eq_some_iff.mp hact
  cases heq
  cases op with
  | get k =>
    cases hmap
    refine ⟨trivial, ?_⟩
    rcases hallow with hl | ⟨m, rfl, hm, rfl, hne⟩
    · have hnext := gvoiceLooked_of_none hl (s.gvoiceContext.get k)
      refine h.look htracks ?_
      change Known P _ _ (l.gvoiceLooked _)
      rw [hnext]
      exact (h.known i l hi).looked hl
    · exact h.look htracks (h.gvoice_looked hi hm hne)
  | put k gvm =>
    cases hmap
    obtain ⟨rfl, rfl⟩ := hallow
    refine ⟨trivial, h.store rfl (fun k gvm' ↦ ?_) (fun k email ↦ ?_) ⟨?_, h.size.2⟩ rfl htracks rfl⟩
    · rw [latest_append, contextKey]
      change (s.gvoiceContext.put _ _).get k = _ ↔ _
      by_cases hk : k = gvoiceKey gvm.senderPhone
      · subst hk
        simp [SharedMap.get_put_self]
      · rw [SharedMap.get_put_of_ne hk, if_neg (by simpa using Ne.symm hk)]
        exact h.gvoice k gvm'
    · rw [latest_append, contextKey, if_neg (by simp)]
      exact h.email k email
    · exact of_decide_eq_true hG
  | size =>
    cases hmap
    refine ⟨h.size.1, h.idle hi rfl rfl ?_ rfl htracks rfl (by simp)⟩
    exact List.append_nil _
  | remove k => exact hallow.elim
  | removeValue v => exact hallow.elim
  | firstKey => exact hallow.elim

theorem Inv.email_call {op : MapOp Str ParsedEmail} {offer r : (mapSig Str ParsedEmail).Resp op}
    (h : Inv P s ls) (hi : ls[i]? = some l)
    (hallow : (disc P).allow l (.mail (.router (.emailContext op))))
    (hG : fewSenders.call s i (.mail (.router (.emailContext op))))
    (hact : Pipeline.act P i (.mail (.router (.emailContext op))) offer s = some (r, s'))
    (htracks : Tracks Local.Knows s'
      (ls.set i ((disc P).next l (.mail (.router (.emailContext op))) r) ++ [])) :
    (disc P).may l (.mail (.router (.emailContext op))) r ∧
      Inv P s' (ls.set i ((disc P).next l (.mail (.router (.emailContext op))) r) ++ []) := by
  obtain ⟨⟨r', m'⟩, hmap, heq⟩ := Option.map_eq_some_iff.mp hact
  cases heq
  cases op with
  | get k =>
    cases hmap
    refine ⟨trivial, ?_⟩
    rcases hallow with hl | ⟨m, rfl, hl⟩
    · have hnext := emailLooked_of_none hl (s.emailContext.get k)
      refine h.look htracks ?_
      change Known P _ _ (l.emailLooked _)
      rw [hnext]
      exact (h.known i l hi).looked hl
    · exact h.look htracks (h.email_looked hi hl)
  | put k email =>
    cases hmap
    obtain ⟨rfl, rfl⟩ := hallow
    refine ⟨trivial, h.store rfl (fun k gvm ↦ ?_) (fun k email' ↦ ?_) ⟨h.size.1, ?_⟩ rfl htracks rfl⟩
    · rw [latest_append, contextKey, if_neg (by simp)]
      exact h.gvoice k gvm
    · rw [latest_append, contextKey]
      change (s.emailContext.put _ _).get k = _ ↔ _
      by_cases hk : k = emailKey P email.fromEmail
      · subst hk
        simp [SharedMap.get_put_self]
      · rw [SharedMap.get_put_of_ne hk, if_neg (by simpa using Ne.symm hk)]
        exact h.email k email'
    · exact of_decide_eq_true hG
  | size =>
    cases hmap
    refine ⟨h.size.2, h.idle hi rfl rfl ?_ rfl htracks rfl (by simp)⟩
    exact List.append_nil _
  | remove k => exact hallow.elim
  | removeValue v => exact hallow.elim
  | firstKey => exact hallow.elim

theorem Inv.reply (h : Inv P s ls) (hi : ls[i]? = some l) {sent : Option Outgoing}
    (hsent : l.message = none ∨ (∃ m, l = .lost m) ∨
      ∃ m e text, l = .found m e ∧ sent = some (replyToEmail e text))
    (htracks : Tracks Local.Knows (s.reply i sent) (ls.set i l.back ++ new))
    (hnew : ∀ x ∈ new, x = .plain) : Inv P (s.reply i sent) (ls.set i l.back ++ new) := by
  have hback (m : Message) (hm : l.message = some m) : l.back = .handling m := by
    rw [Local.back, hm]
  have hknown : Known P s.contexts (s.looked i) l.back := by
    cases hm : l.message with
    | none =>
      rw [Local.back, hm]
      exact h.known i l hi
    | some m =>
      rw [hback m hm]
      intro _
      rcases hsent with hnone | ⟨m', rfl⟩ | ⟨m', e, text, rfl, -⟩
      · rw [hm] at hnone
        cases hnone
      · cases hm
        obtain ⟨own, hmem, hbuilds, -⟩ := h.known i _ hi
        exact ⟨own, (h.looked i).subset hmem, hbuilds⟩
      · cases hm
        obtain ⟨own, hmem, hbuilds, -⟩ := h.known i _ hi
        exact ⟨own, (h.looked i).subset hmem, hbuilds⟩
  refine h.update rfl rfl rfl (fun _ _ ↦ rfl) (h.looked i) htracks hknown
    (fun x hx _ ↦ hnew x hx ▸ trivial) fun r hr ↦ ?_
  rcases List.mem_append.mp hr with hr | hr
  · exact .inl hr
  · obtain rfl := List.mem_singleton.mp hr
    refine .inr ⟨h.looked i, fun m hm ↦ ?_⟩
    have hmsg : l.message = some m := h.running.known hi hm rfl
    rcases hsent with hnone | ⟨m', rfl⟩ | ⟨m', e, text, rfl, rfl⟩
    · rw [hmsg] at hnone
      cases hnone
    · cases hmsg
      obtain ⟨own, hmem, hbuilds, hclear⟩ := h.known i _ hi
      exact ⟨own, hmem, hbuilds, fun hc ↦ absurd hc hclear⟩
    · cases hmsg
      obtain ⟨own, hmem, hbuilds, htarget⟩ := h.known i _ hi
      refine ⟨own, hmem, hbuilds, fun hc ↦ ?_⟩
      obtain ⟨target, hlatest, rfl⟩ := htarget hc
      exact ⟨target, hlatest, text, rfl⟩

theorem Inv.call {op : SystemOp} {offer r : systemSig.Resp op} (h : Inv P s ls) (hi : ls[i]? = some l)
    (hallow : (disc P).allow l op) (hG : fewSenders.call s i op)
    (hact : Pipeline.act P i op offer s = some (r, s')) :
    (disc P).may l op r ∧ Inv P s' (ls.set i ((disc P).next l op r) ++ launched .plain Local.awaiting op) := by
  have htracks : Tracks Local.Knows s' (ls.set i ((disc P).next l op r) ++ launched .plain Local.awaiting op) :=
    h.running.step hi hact (follows hallow)
  rcases op with op | op | op
  · exact ⟨trivial, h.engine_call hi hallow hact htracks⟩
  · cases op with
    | router op =>
      cases op with
      | hasContext =>
        cases hact
        exact ⟨trivial, h.idle hi rfl rfl rfl rfl htracks rfl (by simp [launched])⟩
      | gvoiceContext op => exact h.gvoice_call hi hallow hG hact htracks
      | emailContext op => exact h.email_call hi hallow hG hact htracks
      | launchReply reply =>
        cases hact
        refine ⟨trivial, h.reply hi ?_ htracks (by simp [launched])⟩
        rcases hallow with hl | ⟨m, e, text, hl, rfl⟩
        · exact .inl hl
        · exact .inr (.inr ⟨m, e, text, hl, rfl⟩)
      | dropReply sender =>
        cases hact
        refine ⟨trivial, h.reply hi ?_ htracks (by simp [launched])⟩
        rcases hallow with hl | hl
        · exact .inl hl
        · exact .inr (.inl hl)
    | _ =>
      cases hact
      exact ⟨trivial, h.idle hi rfl rfl rfl rfl htracks rfl (by simp [launched])⟩
  · cases op with
    | router op =>
      have heq := replyRouterAct_mail hact
      exact ⟨trivial, h.idle hi heq.gvoiceContext heq.emailContext heq.contexts heq.looked
        htracks heq.replies (by simp [launched])⟩
    | _ =>
      cases hact
      exact ⟨trivial, h.idle hi rfl rfl rfl rfl htracks rfl (by simp [launched])⟩

variable (P cfg)

def outline : Outline (machine P cfg stackDepth) fewSenders Local where
  disc := disc P
  final _ := True
  entryLocal _ := .plain
  spawnLocal := spawnLocal .plain Local.awaiting
  inv := Inv P
  entry_wp _ input _ := entry_wp input
  spawn_wp _ _ _ _ _ := spawn_wp
  inv_start s ls input _ h := by
    refine ⟨h.gvoice, h.email, h.size, h.looked, h.running.append, fun j l hl ↦ ?_, h.replies⟩
    rw [List.getElem?_append] at hl
    split at hl
    · exact h.known j l hl
    · obtain rfl := List.mem_singleton.mp (List.mem_of_getElem? hl)
      trivial
  inv_call s ls i l op offer r s' hi hallow hG hact h := by
    change _ ∧ Inv P s' (_ ++ ((spawned P cfg stackDepth op).map fun _ ↦ spawnLocal .plain Local.awaiting op).toList)
    rw [launched_eq]
    exact h.call hi hallow hG hact

/-- In every state of a run in which no map takes in more than 200 senders, each
reply of a public handler has gone where it belongs. -/
theorem reply_to_latest {c : Configuration}
    (h : (machine P cfg stackDepth).Reachable fewSenders ⟨.init, []⟩ c) :
    ∀ r ∈ c.shared.replies, r.contexts <+: c.shared.contexts ∧
      ∀ m, r.handling = some (.publicMessage, m) → Routed P m r := by
  have hinit : Inv P .init [] := by
    refine ⟨fun _ _ ↦ ?_, fun _ _ ↦ ?_, ⟨by decide, by decide⟩, fun _ ↦ List.prefix_rfl, ?_, ?_, ?_⟩
    · simp [Shared.init, latest]
    · simp [Shared.init, latest]
    · intro i h m hm
      cases hm
    · simp
    · simp [Shared.init]
  obtain ⟨ls, -, hinv⟩ := (outline P cfg stackDepth).reachable h (Outline.holds_init _ hinit)
  exact hinv.replies

/-! Two e-mails of one sender -/

def first : ParsedEmail := ⟨"<1@example.com>", "1", "t1", "ann@example.com", "Ann", "hi", "hello", true⟩

def second : ParsedEmail := ⟨"<2@example.com>", "2", "t2", "ann@example.com", "Ann", "bye", "later", true⟩

/-- One e-mail is processed, and its message handled. -/
def alone : List (Label systemSig Input) := [.start (.email first)] ++ steps 0 7 ++ steps 1 13

/-- Both e-mails are processed before the message of the first is handled. -/
def overtaken : List (Label systemSig Input) :=
  [.start (.email first), .start (.email second)] ++ steps 0 7 ++ steps 1 7 ++ steps 2 13

/-- The handlers that replied, with the thread of their message and that of the reply. -/
abbrev threads (c : Configuration) : List (Option (Handler × Str) × Option Str) :=
  c.shared.replies.map fun r ↦
    (r.handling.map fun h ↦ (h.1, h.2.threadId), r.sent.bind Outgoing.threadId)

theorem first_answered : ∃ c, sample.run (fun s _ op ↦ few s op) ⟨.init, []⟩ alone = some c ∧
    threads c = [(some (.publicMessage, "t1".toList), some "t1".toList)] ∧
    ∀ r ∈ c.shared.replies, r.contexts <+: c.shared.contexts ∧
      ∀ m, r.handling = some (.publicMessage, m) → Routed asciiPlatform m r := by
  have h : (sample.run (fun s _ op ↦ few s op) ⟨.init, []⟩ alone).map threads =
      some [(some (.publicMessage, "t1".toList), some "t1".toList)] := by decide +kernel
  obtain ⟨c, hc, hthreads⟩ := Option.map_eq_some_iff.mp h
  refine ⟨c, hc, hthreads, reply_to_latest asciiPlatform
    ⟨"+16502530000", "Owner", "Aigentik"⟩ 3 ?_⟩
  exact Machine.reachable_of_run _ (fun _ _ ↦ trivial) (fun _ _ _ ↦ id) hc

/-- The reply to the message of thread `t1` goes to thread `t2`. -/
theorem answered_in_other_thread : ∃ c,
    sample.run (fun s _ op ↦ few s op) ⟨.init, []⟩ overtaken = some c ∧
    threads c = [(some (.publicMessage, "t1".toList), some "t2".toList)] := by
  have h : (sample.run (fun s _ op ↦ few s op) ⟨.init, []⟩ overtaken).map threads =
      some [(some (.publicMessage, "t1".toList), some "t2".toList)] := by decide +kernel
  obtain ⟨c, hc, hthreads⟩ := Option.map_eq_some_iff.mp h
  exact ⟨c, hc, hthreads⟩

end Aigentik.MailReplies
