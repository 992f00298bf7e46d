import LiveTemplate.Proofs.Overlaying
import LiveTemplate.Proofs.Separating

/-!
# Extending the style of a node

Plain declarations of a template are put behind the style that a node has.  They
are read apart from it, whatever they are, exactly if the style that is kept is
ended: its last component but for blanks is a semicolon, or there is none.
-/

namespace LiveTemplate.Template

open Blueprint (keptText)
open Css.Declarations (Ended extendedStyle parse)

variable {σ : Type} {host : Host σ}

/-- A plain style comes to itself behind what is kept of the present one. -/
theorem overlaid_style (seen : World σ) (m : NodeId) (present : String)
    {added : String} (there : added ≠ "") :
    overlaid host seen m "style" [.fixed (.text added)] (some present) =
      some (extendedStyle present added) := by
  have values : (truthyValues host seen m [.fixed (.text added)]).map
      Value.domString = [added] := by
    simp [truthyValues, valuesAny, Chunk.values, there, List.filter_cons,
      Value.isTruthy, Value.isFalsy, Value.domString]
  have texts : overlaidTexts host seen m "style" [.fixed (.text added)]
      (some present) = [keptText "style" present, added].filter (· ≠ "") := by
    rw [overlaidTexts_extendable (by rfl), values]
    rfl
  have filled : overlaidTexts host seen m "style" [.fixed (.text added)]
      (some present) ≠ [] := by
    rw [texts]
    simp [there]
  rw [overlaid, if_pos filled, texts]
  rfl

/-- Once a template is worked into a tree, a plain style in it is put behind the
style that a node had.  Whatever is put there, its declarations are set on the
former ones exactly if the style that is kept is ended. -/
theorem style_extends_iff {client : σ} {world : World σ}
    (reached : Run (World.initial client) world)
    (linked : world.dom.IsLinked) {t inner : TemplateId} {n m node : NodeId}
    (isTree : world.dom.IsTree n) (isPure : IsPure host world t n)
    (applied : (apply host t n).result world = .ok node)
    (matched : Matched world t n inner m)
    (isElement : (world.template inner).blueprint.text = none)
    {present added : String} (there : added ≠ "")
    (member : ("style", [.fixed (.text added)]) ∈
      (world.template inner).blueprint.attributes)
    (styled : world.dom.attributeNs? m none "style" = some present) :
    ((apply host t n).after world).dom.attributeNs? m none "style" =
        some (extendedStyle present added) ∧
      ((∀ declared, declared ≠ "" → parse (extendedStyle present declared) =
          (parse present).setAll (parse declared).entries) ↔
        Ended (keptText "style" present).toList) := by
  have sound := (reached.progress (World.ordered_initial client)).1.sound
  obtain ⟨seen, -, shown⟩ := overlies_apply sound linked isTree isPure applied
    matched isElement member rfl
  refine ⟨?_, Css.Declarations.ended_of_parse_extendedStyle,
    fun ended declared filled =>
      Css.Declarations.parse_extendedStyle filled ended⟩
  have whole := shown.trans (congrArg (overlaid host seen m "style" _) styled)
  rwa [overlaid_style seen m present there] at whole

private theorem applied_paragraph :
    (apply Card.client ⟨0⟩ ⟨0⟩).result
      (Paragraph.start "style" "top: 1px" [.fixed (.text "color: red")]) =
        .ok ⟨0⟩ := by
  decide +kernel

/-- A declaration without a semicolon is ended by the one put behind it. -/
theorem style_extends_top :
    ((apply Card.client ⟨0⟩ ⟨0⟩).after (Paragraph.start "style" "top: 1px"
        [.fixed (.text "color: red")])).dom.attributeNs? ⟨0⟩ none "style" =
      some "top: 1px; color: red" ∧
    ∀ declared, declared ≠ "" → parse (extendedStyle "top: 1px" declared) =
      (parse "top: 1px").setAll (parse declared).entries := by
  obtain ⟨shown, apart⟩ := style_extends_iff (Paragraph.reached _ _ _)
    (Paragraph.linked _ _ _) (Paragraph.isTree _ _ _) (Paragraph.isPure _ _ _)
    applied_paragraph (.root _ _) rfl (by decide) (.head _) rfl
  have settled : Css.Settled "top: 1px".toList :=
    Css.Declarations.Ended.settled (by decide +kernel)
  have ended := Css.Declarations.ended_keptText_of_settled settled
    (by decide) (by decide)
  exact ⟨shown.trans (by decide +kernel), apart.mpr ended⟩

/-- An escaped semicolon at the end of a closed style is taken for one that ends
it, and the declaration behind it becomes a part of its value. -/
theorem style_takes_in_color :
    let start := Paragraph.start "style" "a: x\\;" [.fixed (.text "color: red")]
    let later := (apply Card.client ⟨0⟩ ⟨0⟩).after start
    (apply Card.client ⟨0⟩ ⟨0⟩).result start = .ok ⟨0⟩ ∧
      Css.Settled "a: x\\;".toList ∧
      later.dom.attributeNs? ⟨0⟩ none "style" = some "a: x\\; color: red" ∧
      (parse "a: x\\; color: red").entries = [("a", "x\\; color: red")] ∧
      ((parse "a: x\\;").setAll (parse "color: red").entries).entries =
        [("a", "x\\;"), ("color", "red")] := by
  exact ⟨by decide +kernel, Css.Declarations.Ended.settled (by decide +kernel),
    by decide +kernel, by decide +kernel, by decide +kernel⟩

end LiveTemplate.Template
