import ServiceChains.Proofs.Source.Blanking
import ServiceChains.Proofs.Text.Encoding

/-!
# Blanking in a buffer of bytes

A source can also be blanked in a buffer that holds its bytes, with no regard to its characters. What
begins or ends a comment or a literal is a character of one byte. Behind a backslash only one byte is
passed over, though, and that may be the first of several bytes of a character, so in the midst of a
literal the buffer need not hold a text. It does so in the end: it holds the bytes of the blanked text.
-/
namespace ServiceChains.Source

open Text

section Definitions

/-- A space for each byte. -/
def spaced (bs : List UInt8) : List UInt8 :=
  bs.map fun _ => ' '.toUInt8

/-- A space for each byte, but line breaks are kept. -/
def spacedLines (bs : List UInt8) : List UInt8 :=
  bs.map fun b => if b = '\n'.toUInt8 then b else ' '.toUInt8

/-- Can a text be cut in front of these bytes? -/
def startsCharacter : List UInt8 → Bool
  | [] => true
  | b :: _ => b.toNat < 128 || 192 ≤ b.toNat

/-- The bytes up to and with the star and the slash that close a comment, or all of them, and what is
left. -/
def commentSpan : List UInt8 → List UInt8 × List UInt8
  | [] => ([], [])
  | b :: bs =>
    if b = '*'.toUInt8 ∧ bs.head? = some '/'.toUInt8 then ([b, '/'.toUInt8], bs.tail)
    else (b :: (commentSpan bs).1, (commentSpan bs).2)

/-- How many further bytes a byte of a literal takes with it. -/
def escapes (b : UInt8) : Nat :=
  if b = '\\'.toUInt8 then 1 else 0

/-- The bytes of a literal up to its quote or to a line break, and what is left. -/
def literalSpan (quote : UInt8) : List UInt8 → List UInt8 × List UInt8
  | [] => ([], [])
  | b :: bs =>
    if b = quote ∨ b = '\n'.toUInt8 then ([], b :: bs)
    else
      let (inside, after) := literalSpan quote (bs.drop (escapes b))
      (b :: bs.take (escapes b) ++ inside, after)
termination_by bs => bs.length
decreasing_by simp

theorem length_commentSpan_le (bs : List UInt8) : (commentSpan bs).2.length ≤ bs.length := by
  fun_induction commentSpan bs with
  | case1 => exact le_rfl
  | case2 b bs h =>
    simp only [List.length_tail, List.length_cons]
    omega
  | case3 b bs h ih =>
    simp only [List.length_cons]
    omega

theorem length_literalSpan_le (quote : UInt8) (bs : List UInt8) :
    (literalSpan quote bs).2.length ≤ bs.length := by
  fun_induction literalSpan quote bs with
  | case1 => exact le_rfl
  | case2 b bs h => exact le_rfl
  | case3 b bs h inside after hspan ih =>
    simp only [hspan, List.length_drop, List.length_cons] at ih ⊢
    omega

/-- What the buffer holds in the end for bytes that are read from the code on. There is no answer if
the end of a comment would have to be searched from inside a character. -/
def blankBuffer? (literals : Bool) : List UInt8 → Option (List UInt8)
  | [] => some []
  | b :: bs =>
    if b = '/'.toUInt8 ∧ bs.head? = some '/'.toUInt8 then
      (blankBuffer? literals (bs.dropWhile (· != '\n'.toUInt8))).map fun later =>
        spaced (b :: bs.takeWhile (· != '\n'.toUInt8)) ++ later
    else if b = '/'.toUInt8 ∧ bs.head? = some '*'.toUInt8 then
      if startsCharacter bs.tail then
        (blankBuffer? literals (commentSpan bs.tail).2).map fun later =>
          spacedLines (b :: '*'.toUInt8 :: (commentSpan bs.tail).1) ++ later
      else none
    else if b = '"'.toUInt8 ∨ b = '\''.toUInt8 then
      let inside := (literalSpan b bs).1
      let after := (literalSpan b bs).2
      -- What ends the literal, a quote or a line break, is passed over as it is.
      (blankBuffer? literals (after.drop 1)).map fun later =>
        b :: (if literals then spaced inside else inside) ++ (after.take 1 ++ later)
    else (blankBuffer? literals bs).map (b :: ·)
termination_by bs => bs.length
decreasing_by
  · have hle := (List.dropWhile_suffix (l := bs) (· != '\n'.toUInt8)).length_le
    simp only [List.length_cons]
    omega
  · have hle := length_commentSpan_le bs.tail
    simp only [List.length_tail, List.length_cons] at hle ⊢
    omega
  · have hle := length_literalSpan_le b bs
    simp only [List.length_drop, List.length_cons]
    omega
  · simp

end Definitions

section High

variable {hs : List UInt8} (h : ∀ b ∈ hs, IsHigh b)

include h

theorem commentSpan_high (bs : List UInt8) :
    commentSpan (hs ++ bs) = (hs ++ (commentSpan bs).1, (commentSpan bs).2) := by
  induction hs with
  | nil => rfl
  | cons b hs ih =>
    obtain ⟨hb, hhs⟩ := List.forall_mem_cons.mp h
    have hstar : b ≠ '*'.toUInt8 := hb.ne rfl
    rw [List.cons_append, commentSpan, if_neg fun hclose => hstar hclose.1, ih hhs]
    rfl

theorem literalSpan_high {quote : Char} (hquote : quote.utf8Size = 1) (bs : List UInt8) :
    literalSpan quote.toUInt8 (hs ++ bs) =
      (hs ++ (literalSpan quote.toUInt8 bs).1, (literalSpan quote.toUInt8 bs).2) := by
  induction hs with
  | nil => rfl
  | cons b hs ih =>
    obtain ⟨hb, hhs⟩ := List.forall_mem_cons.mp h
    have hends : ¬ (b = quote.toUInt8 ∨ b = '\n'.toUInt8) := by
      rintro (heq | heq)
      · exact hb.ne hquote heq
      · exact hb.ne rfl heq
    have halone : escapes b = 0 := if_neg (hb.ne rfl)
    rw [List.cons_append, literalSpan, if_neg hends, halone, List.drop_zero, ih hhs]
    rfl

theorem blankBuffer?_high (literals : Bool) (bs : List UInt8) :
    blankBuffer? literals (hs ++ bs) = (blankBuffer? literals bs).map (hs ++ ·) := by
  induction hs with
  | nil => simp
  | cons b hs ih =>
    obtain ⟨hb, hhs⟩ := List.forall_mem_cons.mp h
    have hslash : b ≠ '/'.toUInt8 := hb.ne rfl
    have hquote : ¬ (b = '"'.toUInt8 ∨ b = '\''.toUInt8) := by
      rintro (heq | heq) <;> exact hb.ne rfl heq
    rw [List.cons_append, blankBuffer?, if_neg fun hline => hslash hline.1,
      if_neg fun hcomment => hslash hcomment.1, if_neg hquote, ih hhs, Option.map_map]
    rfl

end High

section Spans

variable {c quote : Char} {cs : List Char}

theorem commentSpan_cons (h : ¬ (c = '*' ∧ cs.head? = some '/')) :
    commentSpan (encode (c :: cs)) =
      (String.utf8EncodeChar c ++ (commentSpan (encode cs)).1, (commentSpan (encode cs)).2) := by
  rw [encode_cons]
  rcases utf8EncodeChar_cases c with ⟨hc, hbyte⟩ | hhigh
  · have hopen : ¬ (c.toUInt8 = '*'.toUInt8 ∧ (encode cs).head? = some '/'.toUInt8) := by
      rwa [toUInt8_inj hc rfl, head?_encode_eq_some_iff rfl]
    rw [hbyte, List.singleton_append, commentSpan, if_neg hopen]
    rfl
  · exact commentSpan_high hhigh _

/-- The bytes up to the end of a comment are those of the characters up to it. -/
theorem exists_commentSpan (literals : Bool) (cs : List Char) :
    ∃ inside after, cs = inside ++ after ∧
      commentSpan (encode cs) = (encode inside, encode after) ∧
      blankFrom literals .blockComment cs =
        inside.flatMap (fun c => blankChar literals (c, .comment)) ++
          blankFrom literals .code after := by
  induction cs with
  | nil => exact ⟨[], [], rfl, rfl, rfl⟩
  | cons c cs ih =>
    by_cases hclose : c = '*' ∧ cs.head? = some '/'
    · obtain ⟨rfl, hslash⟩ := hclose
      obtain ⟨after, rfl⟩ := List.head?_eq_some_iff.mp hslash
      refine ⟨['*', '/'], after, rfl, rfl, ?_⟩
      rw [blankFrom_cons, blankFrom_cons]
      rfl
    · obtain ⟨inside, after, rfl, hspan, hblank⟩ := ih
      refine ⟨c :: inside, after, rfl, ?_, ?_⟩
      · rw [commentSpan_cons hclose, hspan, encode_cons]
      · rw [blankFrom_cons, step, if_neg hclose, hblank, List.flatMap_cons, List.append_assoc]

theorem blankFrom_lineComment (literals : Bool) (cs : List Char) :
    blankFrom literals .lineComment cs =
      (cs.takeWhile (· != '\n')).flatMap (fun c => blankChar literals (c, .comment)) ++
        blankFrom literals .code (cs.dropWhile (· != '\n')) := by
  induction cs with
  | nil => rfl
  | cons c cs ih =>
    by_cases hc : c = '\n'
    · subst hc
      rfl
    · rw [blankFrom_cons, step, if_neg hc, ih, List.takeWhile_cons_of_pos (by simpa using hc),
        List.dropWhile_cons_of_pos (by simpa using hc), List.flatMap_cons, List.append_assoc]

theorem blankFrom_escaped (literals : Bool) (quote : Char) (cs : List Char) :
    blankFrom literals (.escaped quote) cs =
      (cs.take 1).flatMap (fun c => blankChar literals (c, .literal)) ++
        blankFrom literals (.literal quote) (cs.drop 1) := by
  cases cs with
  | nil => rfl
  | cons c cs =>
    rw [blankFrom_cons]
    simp [step]

variable (hquote : quote.utf8Size = 1)

include hquote

theorem literalSpan_cons (hends : ¬ (c = quote ∨ c = '\n')) (hc : c ≠ '\\') :
    literalSpan quote.toUInt8 (encode (c :: cs)) =
      (String.utf8EncodeChar c ++ (literalSpan quote.toUInt8 (encode cs)).1,
        (literalSpan quote.toUInt8 (encode cs)).2) := by
  rw [encode_cons]
  rcases utf8EncodeChar_cases c with ⟨hsize, hbyte⟩ | hhigh
  · have hopen : ¬ (c.toUInt8 = quote.toUInt8 ∨ c.toUInt8 = '\n'.toUInt8) := by
      rwa [toUInt8_inj hsize hquote, toUInt8_inj hsize rfl]
    have halone : escapes c.toUInt8 = 0 := if_neg (by rwa [toUInt8_inj hsize rfl])
    rw [hbyte, List.singleton_append, literalSpan, if_neg hopen, halone]
    rfl
  · exact literalSpan_high hhigh hquote _

variable (hbackslash : quote ≠ '\\')

include hbackslash

/-- Behind a backslash the first byte of a character is passed over. Its other bytes are high: they end
no literal, and no backslash is among them. -/
theorem literalSpan_backslash (cs : List Char) :
    literalSpan quote.toUInt8 (encode ('\\' :: cs)) =
      (encode ('\\' :: cs.take 1) ++ (literalSpan quote.toUInt8 (encode (cs.drop 1))).1,
        (literalSpan quote.toUInt8 (encode (cs.drop 1))).2) := by
  have hopen : ¬ ('\\'.toUInt8 = quote.toUInt8 ∨ '\\'.toUInt8 = '\n'.toUInt8) := by
    rw [toUInt8_inj rfl hquote, toUInt8_inj rfl rfl]
    rintro (heq | heq)
    · exact hbackslash heq.symm
    · cases heq
  have hnext : escapes '\\'.toUInt8 = 1 := if_pos rfl
  rw [encode_cons, encode_cons, utf8EncodeChar_of_utf8Size rfl, List.singleton_append, literalSpan,
    if_neg hopen, hnext]
  cases cs with
  | nil => rfl
  | cons c cs =>
    obtain ⟨b, tail, hbytes⟩ := List.exists_cons_of_ne_nil (String.utf8EncodeChar_ne_nil (c := c))
    have htail : ∀ t ∈ tail, IsHigh t := by
      intro t ht
      exact isHigh_of_mem_tail (c := c) (by rwa [hbytes])
    simp [hbytes, literalSpan_high htail hquote]

/-- The bytes up to the end of a literal are those of the characters up to it. -/
theorem exists_literalSpan (literals : Bool) (cs : List Char) :
    ∃ inside after, cs = inside ++ after ∧ (∀ c ∈ after.head?, c = quote ∨ c = '\n') ∧
      literalSpan quote.toUInt8 (encode cs) = (encode inside, encode after) ∧
      blankFrom literals (.literal quote) cs =
        inside.flatMap (fun c => blankChar literals (c, .literal)) ++
          (after.take 1 ++ blankFrom literals .code (after.drop 1)) := by
  -- A backslash takes two characters at once.
  induction hn : cs.length using Nat.strong_induction_on generalizing cs with
  | _ n ih =>
    subst hn
    cases cs with
    | nil => exact ⟨[], [], rfl, by simp, by simp [literalSpan], rfl⟩
    | cons c cs =>
      by_cases hends : c = quote ∨ c = '\n'
      · have hc : c.utf8Size = 1 := by
          rcases hends with rfl | rfl
          · exact hquote
          · rfl
        refine ⟨[], c :: cs, rfl, by simpa using hends, ?_, ?_⟩
        · rw [encode_cons, utf8EncodeChar_of_utf8Size hc, List.singleton_append, literalSpan, if_pos]
          · rfl
          · rwa [toUInt8_inj hc hquote, toUInt8_inj hc rfl]
        · rw [blankFrom_cons, step, if_pos hends]
          rfl
      by_cases hc : c = '\\'
      · subst hc
        obtain ⟨inside, after, hcut, hhead, hspan, hblank⟩ :=
          ih (cs.drop 1).length (by simp) (cs.drop 1) rfl
        refine ⟨'\\' :: cs.take 1 ++ inside, after, ?_, hhead, ?_, ?_⟩
        · rw [List.append_assoc, ← hcut, List.cons_append, List.take_append_drop]
        · rw [literalSpan_backslash hquote hbackslash, hspan, encode_append]
        · rw [blankFrom_cons, step, if_neg hends, if_pos rfl, blankFrom_escaped, hblank]
          simp
      · obtain ⟨inside, after, rfl, hhead, hspan, hblank⟩ := ih cs.length (by simp) cs rfl
        refine ⟨c :: inside, after, rfl, hhead, ?_, ?_⟩
        · rw [literalSpan_cons hquote hends hc, hspan, encode_cons]
        · rw [blankFrom_cons, step, if_neg hends, if_neg hc, hblank, List.flatMap_cons,
            List.append_assoc]

end Spans

section Written

theorem startsCharacter_encode (cs : List Char) : startsCharacter (encode cs) = true := by
  cases cs with
  | nil => rfl
  | cons c cs =>
    rw [encode_cons, String.utf8EncodeChar]
    generalize c.val.toNat = v
    split_ifs <;> simp [startsCharacter] <;> omega

theorem spaced_eq_replicate (bs : List UInt8) : spaced bs = List.replicate bs.length ' '.toUInt8 :=
  List.map_const' ..

theorem encode_replicate_space (n : Nat) :
    encode (List.replicate n ' ') = List.replicate n ' '.toUInt8 := by
  induction n with
  | zero => rfl
  | succ n ih =>
    rw [List.replicate_succ, List.replicate_succ, encode_cons, ih]
    rfl

theorem encode_blankChar_literal (literals : Bool) (c : Char) :
    encode (blankChar literals (c, .literal)) =
      if literals then spaced (String.utf8EncodeChar c) else String.utf8EncodeChar c := by
  cases literals with
  | false => exact List.append_nil _
  | true =>
    rw [if_pos rfl, spaced_eq_replicate, String.length_utf8EncodeChar, ← encode_replicate_space]
    rfl

theorem spacedLines_of_notMem {bs : List UInt8} (h : '\n'.toUInt8 ∉ bs) :
    spacedLines bs = spaced bs := by
  apply List.map_congr_left
  intro b hb
  apply if_neg
  rintro rfl
  exact h hb

theorem encode_blankChar_comment (literals : Bool) (c : Char) :
    encode (blankChar literals (c, .comment)) = spacedLines (String.utf8EncodeChar c) := by
  by_cases hc : c = '\n'
  · subst hc
    rfl
  · have hbreak : '\n'.toUInt8 ∉ String.utf8EncodeChar c := by
      rwa [mem_utf8EncodeChar_iff rfl]
    have hblanked : isBlanked literals c .comment = true := bne_iff_ne.mpr hc
    rw [spacedLines_of_notMem hbreak, spaced_eq_replicate, String.length_utf8EncodeChar,
      ← encode_replicate_space, blankChar_eq, if_pos hblanked]

theorem encode_flatMap_comment (literals : Bool) (cs : List Char) :
    encode (cs.flatMap fun c => blankChar literals (c, .comment)) = spacedLines (encode cs) := by
  rw [encode_flatMap, spacedLines, encode, List.map_flatMap]
  simp only [encode_blankChar_comment]
  rfl

theorem encode_flatMap_literal (literals : Bool) (cs : List Char) :
    encode (cs.flatMap fun c => blankChar literals (c, .literal)) =
      if literals then spaced (encode cs) else encode cs := by
  rw [encode_flatMap]
  simp only [encode_blankChar_literal]
  cases literals with
  | false => rfl
  | true => exact List.map_flatMap.symm

end Written

section Agreement

variable {literals : Bool} {c : Char} {cs : List Char}

/-- The buffer of a text ends up with the bytes of the blanked text. -/
def Agrees (literals : Bool) (cs : List Char) : Prop :=
  blankBuffer? literals (encode cs) = some (encode (blankFrom literals .code cs))

theorem agrees_lineComment (hnext : cs.head? = some '/')
    (h : Agrees literals (cs.dropWhile (· != '\n'))) : Agrees literals ('/' :: cs) := by
  have hopens : '/'.toUInt8 = '/'.toUInt8 ∧ (encode cs).head? = some '/'.toUInt8 :=
    ⟨rfl, (head?_encode_eq_some_iff rfl).mpr hnext⟩
  obtain ⟨htaken, hleft⟩ := takeWhile_encode (x := '\n') rfl cs
  have hbreak : '\n'.toUInt8 ∉ encode ('/' :: cs.takeWhile (· != '\n')) := by
    rw [encode_cons, ← htaken, List.mem_append, mem_utf8EncodeChar_iff rfl]
    rintro (hslash | hmem)
    · cases hslash
    · simpa using List.mem_takeWhile_imp hmem
  have hblank : blankFrom literals .code ('/' :: cs) =
      ('/' :: cs.takeWhile (· != '\n')).flatMap (fun c => blankChar literals (c, .comment)) ++
        blankFrom literals .code (cs.dropWhile (· != '\n')) := by
    rw [blankFrom_cons, step, if_pos ⟨rfl, hnext⟩, blankFrom_lineComment, List.flatMap_cons,
      List.append_assoc]
  unfold Agrees at h ⊢
  rw [hblank, encode_append, encode_flatMap_comment, spacedLines_of_notMem hbreak, encode_cons,
    utf8EncodeChar_of_utf8Size rfl, List.singleton_append, blankBuffer?, if_pos hopens, htaken,
    hleft, h]
  rfl

theorem agrees_comment (h : ∀ after, after.length ≤ cs.length → Agrees literals after) :
    Agrees literals ('/' :: '*' :: cs) := by
  obtain ⟨inside, after, rfl, hspan, hinside⟩ := exists_commentSpan literals cs
  have hafter : blankBuffer? literals (encode after) = _ := h after (by simp)
  have hline : ¬ ('/'.toUInt8 = '/'.toUInt8 ∧ some '*'.toUInt8 = some '/'.toUInt8) := by decide
  have hblank : blankFrom literals .code ('/' :: '*' :: (inside ++ after)) =
      ('/' :: '*' :: inside).flatMap (fun c => blankChar literals (c, .comment)) ++
        blankFrom literals .code after := by
    rw [blankFrom_cons, blankFrom_cons, List.flatMap_cons, List.flatMap_cons, List.append_assoc,
      List.append_assoc, ← hinside]
    rfl
  unfold Agrees
  rw [hblank, encode_append, encode_flatMap_comment, encode_cons, encode_cons, encode_cons,
    encode_cons, utf8EncodeChar_of_utf8Size rfl, utf8EncodeChar_of_utf8Size rfl,
    List.singleton_append, List.singleton_append, blankBuffer?, List.head?_cons, if_neg hline,
    if_pos ⟨rfl, rfl⟩, List.tail_cons, if_pos (startsCharacter_encode _), hspan, hafter]
  rfl

theorem take_one_encode (h : ∀ c ∈ cs.head?, c.utf8Size = 1) :
    (encode cs).take 1 = encode (cs.take 1) ∧ (encode cs).drop 1 = encode (cs.drop 1) := by
  cases cs with
  | nil => exact ⟨rfl, rfl⟩
  | cons c cs =>
    have hbyte := utf8EncodeChar_of_utf8Size (h c rfl)
    constructor <;> simp [hbyte]

theorem encode_blankChar_code (literals : Bool) (c : Char) :
    encode (blankChar literals (c, .code)) = String.utf8EncodeChar c :=
  List.append_nil _

theorem agrees_literal (hc : c = '"' ∨ c = '\'')
    (h : ∀ after, after.length ≤ cs.length → Agrees literals after) : Agrees literals (c :: cs) := by
  have hsize : c.utf8Size = 1 := by
    rcases hc with rfl | rfl <;> rfl
  have hslash : c ≠ '/' := by
    rcases hc with rfl | rfl <;> decide
  have hbackslash : c ≠ '\\' := by
    rcases hc with rfl | rfl <;> decide
  obtain ⟨inside, after, rfl, hhead, hspan, hinside⟩ :=
    exists_literalSpan hsize hbackslash literals cs
  have hafter : blankBuffer? literals (encode (after.drop 1)) = _ :=
    h (after.drop 1) (by simp only [List.length_drop, List.length_append]; omega)
  have hends : ∀ x ∈ after.head?, x.utf8Size = 1 := by
    intro x hx
    rcases hhead x hx with rfl | rfl
    · exact hsize
    · rfl
  obtain ⟨htake, hdrop⟩ := take_one_encode hends
  have hopen : c.toUInt8 ≠ '/'.toUInt8 := by rwa [ne_eq, toUInt8_inj hsize rfl]
  have hquote : c.toUInt8 = '"'.toUInt8 ∨ c.toUInt8 = '\''.toUInt8 := by
    rwa [toUInt8_inj hsize rfl, toUInt8_inj hsize rfl]
  have hblank : blankFrom literals .code (c :: (inside ++ after)) =
      blankChar literals (c, .code) ++
        (inside.flatMap (fun c => blankChar literals (c, .literal)) ++
          (after.take 1 ++ blankFrom literals .code (after.drop 1))) := by
    rw [blankFrom_cons, step, if_neg fun hline => hslash hline.1,
      if_neg fun hcomment => hslash hcomment.1, if_pos hc, hinside]
  unfold Agrees
  rw [hblank, encode_append, encode_append, encode_append, encode_blankChar_code,
    encode_flatMap_literal, encode_cons, utf8EncodeChar_of_utf8Size hsize, List.singleton_append,
    blankBuffer?, if_neg fun hline => hopen hline.1, if_neg fun hcomment => hopen hcomment.1,
    if_pos hquote, hspan]
  simp only [htake, hdrop, hafter]
  rfl

theorem agrees_code (hline : ¬ (c = '/' ∧ cs.head? = some '/'))
    (hcomment : ¬ (c = '/' ∧ cs.head? = some '*')) (hquote : ¬ (c = '"' ∨ c = '\''))
    (h : Agrees literals cs) : Agrees literals (c :: cs) := by
  unfold Agrees at h ⊢
  rw [blankFrom_cons, step, if_neg hline, if_neg hcomment, if_neg hquote, encode_append,
    encode_blankChar_code, encode_cons]
  rcases utf8EncodeChar_cases c with ⟨hc, hbyte⟩ | hhigh
  · rw [hbyte, List.singleton_append, blankBuffer?, if_neg, if_neg, if_neg, h]
    · rfl
    · rwa [toUInt8_inj hc rfl, toUInt8_inj hc rfl]
    · rwa [toUInt8_inj hc rfl, head?_encode_eq_some_iff rfl]
    · rwa [toUInt8_inj hc rfl, head?_encode_eq_some_iff rfl]
  · rw [blankBuffer?_high hhigh, h]
    rfl

/-- From the code on, the buffer agrees with the blanked text. Each time the buffer is back in the code
a whole number of characters has been passed over. -/
theorem agrees (literals : Bool) (cs : List Char) : Agrees literals cs := by
  induction hn : cs.length using Nat.strong_induction_on generalizing cs with
  | _ n ih =>
    subst hn
    cases cs with
    | nil => simp [Agrees, blankBuffer?, blankFrom, labelFrom]
    | cons c cs =>
      have hshorter : ∀ after : List Char, after.length ≤ cs.length → Agrees literals after := by
        intro after hle
        exact ih after.length (by simp only [List.length_cons]; omega) after rfl
      by_cases hline : c = '/' ∧ cs.head? = some '/'
      · obtain ⟨rfl, hnext⟩ := hline
        exact agrees_lineComment hnext (hshorter _ (List.dropWhile_suffix _).length_le)
      by_cases hcomment : c = '/' ∧ cs.head? = some '*'
      · obtain ⟨rfl, hnext⟩ := hcomment
        obtain ⟨cs, rfl⟩ := List.head?_eq_some_iff.mp hnext
        exact agrees_comment fun after hle => hshorter after (by simp only [List.length_cons]; omega)
      by_cases hquote : c = '"' ∨ c = '\''
      · exact agrees_literal hquote hshorter
      · exact agrees_code hline hcomment hquote (hshorter cs le_rfl)

end Agreement

end ServiceChains.Source
