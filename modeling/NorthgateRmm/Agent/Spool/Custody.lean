import NorthgateRmm.Agent.Spool.Atomic
import NorthgateRmm.Agent.Spool.Eviction

/-!
# Custody of the records

A record is held as long as one of the directories has an entry for it. Whatever fails and
wherever a call is stopped, the queue holds what it held: a record is linked in its new
directory before it is taken out of the old one. Only the two acknowledgements let go of a
record, each of the one that it names.
-/

namespace NorthgateRmm.Agent.Spool

open CrashFs

variable {P : Type} [Payload P] {s s₀ s' : Disk P} {id : Uuid}

namespace Queue

variable {q : Queue} {ctx : Option ContextError}

theorem Begun.keeps (h : Begun id s s') : Keeps s s' := by
  obtain rfl | ⟨hnone, haside⟩ := h
  · exact fun _ hx => hx
  rintro x ⟨d, hd⟩
  refine ⟨d, (haside.image d _ ?_).trans_ne hd⟩
  rintro ⟨rfl, hname | hname⟩
  · cases hname
    exact hd hnone
  · exact nomatch hname

theorem Begun.housed (h : Begun id s s') (hs : Housed s) : Housed s' := by
  obtain rfl | ⟨-, haside⟩ := h
  · exact hs
  have hstays : ∀ {d n}, s.Durable d n → n ≠ .record id → n ≠ .staging id → s'.Durable d n := by
    intro d n hd hrecord hstaging T hT
    obtain ⟨T₀, hT₀, heq⟩ := haside.mayBe T hT
    exact (heq d n fun hn => hn.2.elim hrecord hstaging).trans_ne (hd T₀ hT₀)
  exact ⟨hstays hs.spool nofun nofun, hstays hs.rejected nofun nofun, hstays hs.rollover nofun nofun⟩

theorem moveToRejected_keeps (h : Keeps s₀ s) : Always (Keeps s₀) (moveToRejected id : Step P Unit) s := by
  refine Prog.wp_bind.mpr (keeps_step h (fun _ _ hr => hr.elim) (fun c _ hlink h₁ => ?_) fun _ hk => hk)
  have hthere := Fs.image_linked hlink
  generalize (Fs.exec c _ s).2 = s₁ at h₁ hthere
  refine Prog.wp_bind.mpr (keeps_step h₁ (fun _ _ hr => hr.elim) (fun c _ _ h₂ => ?_) fun _ hk => hk)
  have hstill : (Fs.exec c (.syncDir .rejected) s₁).2.image .rejected (.record id) ≠ none :=
    Fs.image_kept_ne hthere fun hr => hr
  refine Prog.wp_bind.mpr (keeps_step h₂ ?_ (fun c _ _ h₃ => keeps_sync h₃) fun _ hk => hk)
  rintro d x ⟨rfl, hx⟩
  cases hx
  exact ⟨.rejected, hstill, fun hr => nomatch hr.1⟩

theorem evict_keeps {selected : List Metadata} {last : Uuid} (h : Keeps s₀ s) :
    Always (Keeps s₀) (evict selected last : Step P (List Uuid)) s := by
  -- the links of the selection, with nothing taken away
  have hkeeps : ∀ s', Frame false nowhere anything s s' → Keeps s₀ s' := fun s' hf x hx => (h x hx).frame hf fun _ => id
  refine Prog.wp_bind.mpr (Prog.wp_stop (Prog.wp_mono (frame_of_only (Prog.only_forEach fun m _ =>
    only_step (touches_link trivial)) linked) fun r s₁ h₁ => ?_) fun s' hs => hkeeps s' hs.2)
  cases r with
  | error e => exact hkeeps s₁ h₁.2
  | ok _ =>
    refine Prog.wp_bind.mpr (keeps_step (hkeeps s₁ h₁.2) (fun _ _ hr => hr.elim) (fun c _ _ h₂ => ?_) fun _ hk => hk)
    have hthere : ∀ m ∈ selected, (Fs.exec c (.syncDir .rollover) s₁).2.image .rollover (.record m.id) ≠ none :=
      fun m hm => Fs.image_kept_ne (h₁.1 rfl m hm) fun hr => hr
    exact always_bind (keeps_removals (by decide) h₂ hthere) fun _ _ h₃ => always_bind (keeps_sync h₃) fun _ _ h₄ => h₄

theorem makeRejectedRoom_keeps {size : Nat} (h : Keeps s₀ s) :
    Always (Keeps s₀) (q.makeRejectedRoom size : Step P (List Uuid)) s := by
  refine always_bind (keeps_only h only_read) fun chosen s₁ h₁ => ?_
  cases chosen with
  | nil => exact h₁
  | cons m more => exact evict_keeps h₁

theorem quarantine_keeps : Always (Keeps s) (q.quarantine ctx id : Step P QuarantineResult) s := by
  refine always_bind (keeps_only (fun _ h => h) only_ready) fun _ s₁ h₁ => ?_
  refine always_bind (keeps_only h₁ Prog.only_require) fun _ s₂ h₂ => always_bind (keeps_only h₂ only_read) fun item s₃ h₃ => ?_
  refine always_bind (keeps_only h₃ (only_step touches_look)) fun _ s₄ h₄ => ?_
  refine always_bind (keeps_only h₄ Prog.only_require) fun _ s₅ h₅ => always_bind (keeps_only h₅ only_read) fun size s₆ h₆ => ?_
  refine always_bind (makeRejectedRoom_keeps h₆) fun _ s₇ h₇ => ?_
  exact always_bind (Prog.wp_attempt.mpr (moveToRejected_keeps h₇)) fun _ _ h₈ => h₈

end Queue

end NorthgateRmm.Agent.Spool
