import Honeycomb.Text.Basic

/-!
# The page template

The text of the page into which data and code are put: a style sheet, an empty canvas, a mark for
the data and a reference to the code.
-/

set_option autoImplicit false

namespace Honeycomb.Html

/-- The lines of the page. -/
def templateLines : List String := [
  "<!doctype html>",
  "<html lang=\"en\">",
  "  <head>",
  "    <meta charset=\"utf-8\" />",
  "    <meta name=\"viewport\" content=\"width=device-width, initial-scale=1\" />",
  "    <title>hexdeck</title>",
  "    <style>",
  "      :root \x7b",
  "        --fg: #1f2328;",
  "        --fg2: #656d76;",
  "        --bg: #f6f8fa;",
  "        --border: #d0d7de;",
  "        --accent: #2563eb;",
  "      \x7d",
  "      * \x7b box-sizing: border-box; margin: 0; padding: 0; \x7d",
  "      html, body \x7b height: 100%; \x7d",
  "      body \x7b",
  "        font: 13px -apple-system, BlinkMacSystemFont, \"Segoe UI\", sans-serif;",
  "        background: var(--bg);",
  "        color: var(--fg);",
  "      \x7d",
  "      #config-canvas \x7b position: relative; width: 100vw; height: 100vh; overflow: hidden; \x7d",
  "      .hex-wrap \x7b position: absolute; inset: 0; \x7d",
  "      .hex-svg \x7b position: absolute; inset: 0; width: 100%; height: 100%; pointer-events: none; z-index: 0; \x7d",
  "      .hex-nodes \x7b position: absolute; inset: 0; z-index: 1; \x7d",
  "      .hex-node \x7b position: absolute; cursor: pointer; transition: transform .15s; user-select: none; \x7d",
  "      .hex-node:hover \x7b transform: scale(1.06); \x7d",
  "      .hex-node svg \x7b position: absolute; inset: 0; \x7d",
  "      .hex-node svg polygon \x7b filter: drop-shadow(0 2px 6px rgba(0, 0, 0, .08)); \x7d",
  "      .hex-node .hex-label \x7b",
  "        position: absolute; top: 42%; left: 0; right: 0; text-align: center;",
  "        font-size: 11px; font-weight: 600; pointer-events: none;",
  "      \x7d",
  "      .hex-node .hex-status \x7b",
  "        position: absolute; top: 60%; left: 0; right: 0; text-align: center;",
  "        font-size: 10px; text-transform: uppercase; letter-spacing: .5px; pointer-events: none;",
  "      \x7d",
  "      .hex-popup \x7b",
  "        position: absolute; z-index: 10; width: 280px; max-height: 300px; overflow-y: auto;",
  "        background: #fff; border: 1px solid var(--border); border-radius: 10px; padding: 18px;",
  "        box-shadow: 0 8px 24px rgba(0, 0, 0, .12);",
  "      \x7d",
  "      .hex-popup h3 \x7b font-size: 14px; margin-bottom: 14px; font-weight: 600; \x7d",
  "      .hex-popup .toggle-row \x7b",
  "        display: flex; align-items: center; justify-content: space-between;",
  "        margin-bottom: 14px; padding-bottom: 14px; border-bottom: 1px solid var(--border);",
  "      \x7d",
  "      .hex-popup .toggle-label \x7b color: var(--fg2); \x7d",
  "      .toggle-switch \x7b",
  "        width: 36px; height: 20px; border-radius: 10px; background: var(--border);",
  "        position: relative; cursor: pointer;",
  "      \x7d",
  "      .toggle-switch.on \x7b background: #16a34a; \x7d",
  "      .toggle-switch .knob \x7b",
  "        position: absolute; top: 2px; left: 2px; width: 16px; height: 16px;",
  "        border-radius: 50%; background: #fff; transition: left .15s;",
  "      \x7d",
  "      .toggle-switch.on .knob \x7b left: 18px; \x7d",
  "      .hex-popup .field \x7b margin-bottom: 10px; \x7d",
  "      .hex-popup .field label \x7b",
  "        font-size: 11px; color: var(--fg2); text-transform: uppercase; letter-spacing: .5px;",
  "        display: block; margin-bottom: 4px; font-weight: 500;",
  "      \x7d",
  "      .hex-popup .field input \x7b",
  "        width: 100%; padding: 6px 8px; border: 1px solid var(--border); border-radius: 6px; font: inherit;",
  "      \x7d",
  "      .popup-actions \x7b display: flex; gap: 8px; margin-top: 14px; \x7d",
  "      .btn \x7b padding: 6px 12px; border: 1px solid var(--border); border-radius: 6px; background: #fff; cursor: pointer; \x7d",
  "      .btn.primary \x7b background: var(--accent); border-color: var(--accent); color: #fff; \x7d",
  "      .hex-placeholder \x7b position: absolute; top: 50%; left: 50%; transform: translate(-50%, -50%); font-size: 14px; \x7d",
  "      .hex-error \x7b position: absolute; top: 0; left: 0; right: 0; padding: 20px; z-index: 20; \x7d",
  "    </style>",
  "  </head>",
  "  <body>",
  "    <div id=\"config-canvas\"></div>",
  "    <!-- INLINE_DATA -->",
  "    <script src=\"dist/bundle.js\"></script>",
  "  </body>",
  "</html>"]

def template : Text := .ofString (String.intercalate "\n" templateLines ++ "\n")

end Honeycomb.Html
