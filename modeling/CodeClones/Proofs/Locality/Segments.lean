import CodeClones.Proofs.Locality.Readings
import CodeClones.Proofs.Source.Segments

/-! Segments that end in front of a place are the same with another text behind the place. -/

namespace CodeClones.Source

variable {l : Language} {lineStart : Bool} {c : Char} {n : Normalization} {t u z z' behind : List Char}
  {ss ts : List Segment}

lemma KeepsExpressions.of_head? (h : (z.dropWhile isSpace).head? = (z'.dropWhile isSpace).head?) (c : Char)
    (u : List Char) : KeepsExpressions l c u z z' := fun _ ho => by
  rwa [← opensDirective_congr h]

def KeepExpressions (l : Language) (ss : List Segment) (t z z' : List Char) : Prop :=
  ∀ ts us, ss = ts ++ us → ∀ c u, textOf us ++ t = c :: u → KeepsExpressions l c u z z'

lemma KeepExpressions.of_head? (h : (z.dropWhile isSpace).head? = (z'.dropWhile isSpace).head?)
    (ss : List Segment) (t : List Char) : KeepExpressions l ss t z z' :=
  fun _ _ _ c u _ => .of_head? h c u

lemma AreRead.exchange (hl : l ∈ Language.builtin) (h : AreRead l lineStart ss (t ++ z))
    (he : Exchange l (textOf ss ++ t) z z') (hk : KeepExpressions l ss t z z') : AreRead l lineStart ss (t ++ z') := by
  induction ss generalizing lineStart with
  | nil => trivial
  | cons s ss ih =>
    obtain ⟨⟨c, u, hs, hr⟩, h⟩ := h
    rw [textOf_cons, List.append_assoc] at he
    refine ⟨⟨c, u, hs, ?_⟩, ih h he.of_append fun ts us heq => hk (s :: ts) us (by rw [heq, List.cons_append])⟩
    rw [hs, List.cons_append] at he
    have hkeep := hk [] (s :: ss) rfl c (u ++ (textOf ss ++ t)) (by
      rw [textOf_cons, hs, List.cons_append, List.cons_append, List.append_assoc])
    have hassoc : ∀ z, u ++ (textOf ss ++ (t ++ z)) = u ++ (textOf ss ++ t) ++ z := fun z => by
      rw [List.append_assoc, List.append_assoc]
    rw [hassoc] at hr ⊢
    exact (settled_read hl he hkeep _).ok _ hr (by simp)

lemma sameKeys_exchange (hl : l ∈ Language.builtin) (h : AreRead l lineStart ss z) (he : Exchange l (textOf ss) z z')
    (hk : KeepExpressions l ss [] z z')
    (hz : (cutOnto l [] (flagAfter lineStart ss) z).SameKeys n (cutOnto l [] (flagAfter lineStart ss) z')) :
    (cutOnto l [] lineStart (textOf ss ++ z)).SameKeys n (cutOnto l [] lineStart (textOf ss ++ z')) := by
  have h' : AreRead l lineStart ss z' := h.exchange (t := []) hl (by rwa [List.append_nil]) hk
  rw [cutOnto_textOf h, cutOnto_textOf h']
  exact hz.follow rfl

lemma sameKeys_of_areRead (h : AreRead l lineStart ss behind) (h' : AreRead l lineStart ts behind)
    (hflag : flagAfter lineStart ss = flagAfter lineStart ts)
    (hkeys : (keysOf ss).filterMap n.applyKey = (keysOf ts).filterMap n.applyKey) :
    (cutOnto l [] lineStart (textOf ss ++ behind)).SameKeys n (cutOnto l [] lineStart (textOf ts ++ behind)) := by
  rw [cutOnto_textOf h, cutOnto_textOf h', hflag]
  exact (Cut.SameKeys.refl n _).follow hkeys

end CodeClones.Source
