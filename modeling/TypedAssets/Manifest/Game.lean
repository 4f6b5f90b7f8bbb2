import TypedAssets.Manifest.Basic

/-!
# The game manifest

The textures and sounds of a tower defense game, which the command generates code for unless it is
given another manifest.
-/

namespace TypedAssets.Manifest

/-- The manifest of the tower defense game. -/
def game : Manifest where
  assets := [
    ⟨.texture, "Troll", "monster/zombie_1"⟩,
    ⟨.texture, "Zombie2", "monster/zombie_2"⟩,
    ⟨.texture, "Zombie3", "monster/zombie_3"⟩,
    ⟨.texture, "Zombie4", "monster/zombie_4"⟩,
    ⟨.texture, "Zombie5", "monster/zombie_5"⟩,
    ⟨.texture, "Zombie6", "monster/zombie_6"⟩,
    ⟨.texture, "Zombie7", "monster/zombie_7"⟩,
    ⟨.texture, "Zombie8", "monster/zombie_8"⟩,
    ⟨.texture, "Zombie9", "monster/zombie_9"⟩,
    ⟨.texture, "Zombie10", "monster/zombie_10"⟩,
    ⟨.texture, "Map1", "map/map1"⟩,
    ⟨.texture, "Map2", "map/map2"⟩,
    ⟨.texture, "Map3", "map/map3"⟩,
    ⟨.texture, "TowerFreezer", "tower/archer"⟩,
    ⟨.texture, "TowerSimplifier", "tower/basic"⟩,
    ⟨.texture, "Arrow", "tower/arrow"⟩,
    ⟨.texture, "MainMenu", "ui/main_menu"⟩,
    ⟨.texture, "SelectLevel", "ui/select_level"⟩,
    ⟨.texture, "LevelFinished", "ui/level_finished"⟩,
    ⟨.texture, "InfoBox", "ui/infobox"⟩,
    ⟨.texture, "Ui", "ui/ui"⟩,
    ⟨.texture, "HelpScreen", "ui/help_screen"⟩,
    ⟨.texture, "TextShield", "text_shield"⟩,
    ⟨.sound, "MainMenuBgSound", "wakka"⟩,
    ⟨.sound, "LevelFailed", "level_failed"⟩,
    ⟨.sound, "LevelSuccess", "level_success"⟩,
    ⟨.sound, "ZombieDie", "zombie_die"⟩,
    ⟨.sound, "FreezerFire", "freezer_fire"⟩,
    ⟨.sound, "FreezerHit", "freezer_hit"⟩
  ]

end TypedAssets.Manifest
